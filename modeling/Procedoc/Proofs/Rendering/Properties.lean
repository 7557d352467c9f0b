import Procedoc.Proofs.Rendering.Sketch

/-! # Properties of records

A property on a sheet may lack what only repeats the definition it refers to (`Echoes`), which makes
no difference once references have values (`Echoes.like`).  A record cites what its properties cite
(`citesOnly_recordEntries`). -/
namespace Procedoc
set_option autoImplicit false

/-! ## Properties that cite -/

/-- Whether nothing written in a field reads as a reference. -/
structure InertField (c : Catalog) (config : Config) (f : Field Shape) : Prop where
  type : f.type.IsInert c
  notes : InertNotes f.facts.notes
  fallback : InertFallback c f.facts.fallback
  name : Silent (propertyName .input config f)
  title : Silent (Text.label (propertyName .input config f))

def Property.Cites (known : String → Prop) (p : Property) : Prop :=
  Silent p.name ∧ CitesOnly known (.obj p.schema)

def Property.map (f : Entries Json → Entries Json) (p : Property) : Property :=
  { p with schema := f p.schema }

namespace Shape
variable {c : Catalog} {label label' : Key → String} {config : Config} {known : String → Prop}
  {K : Key → Prop}

theorem citesOnly_sketchProperty {f : Facts} (hn : InertNotes f.notes)
    (hf : InertFallback c f.fallback) {property : String} (hp : Silent (Text.label property))
    {wantsTitle : Bool} {shown e : Entries Json} (hs : CitesOnly known (.obj shown))
    (h : sketchProperty c config f property wantsTitle shown = .ok e) :
    CitesOnly known (.obj e) := by
  rw [sketchProperty] at h
  obtain ⟨e', he, h⟩ := exists_of_bind_eq_ok h
  have hcite := citesOnly_onto hn (citesOnly_withDefault hf hs he)
  cases h
  split
  · exact citesOnly_put hcite (by decide) (fun hk => absurd hk (by decide))
      (.of_inert (inert_str hp))
  · exact hcite

theorem cites_sketchField (hc : InertConfig config) {f : Field Shape} (hf : InertField c config f)
    (hK : ∀ key ∈ f.type.folded.refs, K key) {p : Property}
    (h : sketchField c label config f = .ok p) : p.Cites (Labelled label K) := by
  rw [sketchField] at h
  obtain ⟨shown, hs, h⟩ := exists_of_bind_eq_ok h
  obtain ⟨schema, hp, h⟩ := exists_of_bind_eq_ok h
  cases h
  exact ⟨hf.name, citesOnly_sketchProperty hf.notes hf.fallback hf.title
    (citesOnly_sketch hc f.type hf.type hK shown hs) hp⟩

theorem exists_of_mem_sketchFields {fields : List (Field Shape)} {ps : List Property}
    (h : sketchFields c label config fields = .ok ps) {p : Property} (hp : p ∈ ps) :
    ∃ f ∈ fields, sketchField c label config f = .ok p := by
  induction fields generalizing ps with
  | nil =>
    cases h
    cases hp
  | cons f rest ih =>
    rw [sketchFields, List.mapM_cons] at h
    obtain ⟨q, hq, h⟩ := exists_of_bind_eq_ok h
    obtain ⟨qs, hqs, h⟩ := exists_of_bind_eq_ok h
    cases h
    rcases List.mem_cons.mp hp with rfl | hp
    · exact ⟨f, List.mem_cons_self .., hq⟩
    · obtain ⟨g, hg, hpg⟩ := ih hqs hp
      exact ⟨g, List.mem_cons_of_mem _ hg, hpg⟩

theorem cites_sketchFields (hc : InertConfig config) {fields : List (Field Shape)}
    (hf : ∀ f ∈ fields, InertField c config f)
    (hK : ∀ f ∈ fields, ∀ key ∈ f.type.folded.refs, K key) {ps : List Property}
    (h : sketchFields c label config fields = .ok ps) :
    ∀ p ∈ ps, p.Cites (Labelled label K) := by
  intro p hp
  obtain ⟨f, hmem, hpf⟩ := exists_of_mem_sketchFields h hp
  exact cites_sketchField hc (hf f hmem) (hK f hmem) hpf

/-! ## Properties under other labels -/

theorem sketchProperty_relabel (n : Renaming) (config : Config) {f : Facts} (hn : InertNotes f.notes)
    (hf : InertFallback c f.fallback) {property : String} (hp : Silent (Text.label property))
    (wantsTitle : Bool) (shown : Entries Json) :
    sketchProperty c config f property wantsTitle (Entries.mapValues n.data shown) =
      (sketchProperty c config f property wantsTitle shown).map (Entries.mapValues n.data) := by
  rw [sketchProperty, sketchProperty, map_withDefault hf]
  cases (withDefault c config f.fallback shown).outcome with
  | error o => rfl
  | ok e =>
    refine congrArg Except.ok ?_
    rw [← mapValues_onto hn, Entries.has_mapValues]
    split
    · rw [Entries.mapValues_put, data_str hp]
    · rfl

theorem sketchFields_relabel {n : Renaming} (hn : Relabels n label label' K)
    (hc : InertConfig config) {fields : List (Field Shape)}
    (hf : ∀ f ∈ fields, InertField c config f)
    (hK : ∀ f ∈ fields, ∀ key ∈ f.type.folded.refs, K key) :
    sketchFields c label' config fields =
      (sketchFields c label config fields).map
        (List.map (Property.map (Entries.mapValues n.data))) := by
  induction fields with
  | nil => rfl
  | cons f rest ih =>
    have hone : sketchField c label' config f =
        (sketchField c label config f).map (Property.map (Entries.mapValues n.data)) := by
      have hq := hf f (List.mem_cons_self ..)
      rw [sketchField, sketchField,
        sketch_relabel hn hc f.type hq.type (hK f (List.mem_cons_self ..))]
      cases f.type.sketch c label config with
      | error o => rfl
      | ok shown =>
        have hprop := sketchProperty_relabel n config hq.notes hq.fallback hq.title
          f.type.wantsTitle shown
        simp only [Except.map, bind, Except.bind] at hprop ⊢
        rw [hprop]
        cases sketchProperty c config f.facts (propertyName .input config f) f.type.wantsTitle
          shown <;> rfl
    have hrest := ih (fun g hg => hf g (List.mem_cons_of_mem _ hg))
      fun g hg => hK g (List.mem_cons_of_mem _ hg)
    rw [sketchFields] at hrest
    rw [sketchFields, sketchFields, List.mapM_cons, List.mapM_cons, hone, hrest, sketchFields]
    cases sketchField c label config f with
    | error o => rfl
    | ok p => cases rest.mapM (sketchField c label config) <;> rfl

end Shape

/-! ## Records -/

variable {known : String → Prop} {config : Config} {name : String} {doc : Option String}

def propertiesOf (ps : List Property) : Entries Json :=
  Entries.ofList (ps.map fun p => (p.name, .obj p.schema))

theorem keys_propertiesOf (ps : List Property) :
    Entries.keys (propertiesOf ps) = (ps.map Property.name).eraseDups := by
  rw [propertiesOf, Entries.keys_ofList]
  simp only [Entries.keys, List.map_map, Function.comp_def]

/-- The names of the properties that have to be present. -/
def requiredOf (ps : List Property) : List String :=
  (ps.filter Property.isRequired).map Property.name

/-- What a record shows besides its properties and what is written over it. -/
def recordRest (name : String) (doc : Option String) (config : Config)
    (required : List String) : Entries Json :=
  (if required.isEmpty then [] else [("required", .strings required)])
    ++ [("title", (Config.title? config).getD (.str name)), ("type", .str "object")]
    ++ (((Text.describedBy doc).map .str).map fun v => ("description", v)).toList
    ++ (((Config.letsInOthers? config).map .bool).map fun v => ("additionalProperties", v)).toList

theorem recordEntries_eq (name : String) (doc : Option String) (config : Config)
    (ps : List Property) : recordEntries name doc config ps =
      Entries.override
        (("properties", .obj (propertiesOf ps)) :: recordRest name doc config (requiredOf ps))
        (Config.schemaEntries config) := rfl

theorem keys_recordRest (required : List String) :
    (Entries.keys (recordRest name doc config required)).Sublist
      ["required", "title", "type", "description", "additionalProperties"] := by
  rw [recordRest]
  cases required.isEmpty <;> cases Text.describedBy doc <;> cases Config.letsInOthers? config <;>
    simp only [Entries.keys, Option.map_none, Option.map_some, Option.toList_none,
      Option.toList_some, if_true, Bool.false_eq_true, if_false, List.append_nil, List.cons_append,
      List.nil_append, List.map_cons, List.map_nil] <;>
    decide

theorem nodup_keys_recordRest (required : List String) :
    (Entries.keys (recordRest name doc config required)).Nodup :=
  (keys_recordRest required).nodup (by decide)

theorem notMem_keys_recordRest (required : List String) {k : String}
    (h : k ∉ ["required", "title", "type", "description", "additionalProperties"]) :
    k ∉ Entries.keys (recordRest name doc config required) :=
  fun hm => h ((keys_recordRest required).subset hm)

theorem overlay_recordRest (hname : Silent name)
    (hdoc : ∀ d, Text.describedBy doc = some d → Silent d) (hc : InertConfig config)
    {required : List String} (hr : ∀ n ∈ required, Silent n) :
    Overlay (recordRest name doc config required) := by
  intro p hp
  refine ⟨fun hk => notMem_keys_recordRest (k := "$ref") required (by decide)
    (hk ▸ Entries.mem_keys_of_mem hp), ?_⟩
  simp only [recordRest, List.mem_append, Option.mem_toList] at hp
  rcases hp with ((hp | hp) | hp) | hp
  · split at hp
    · cases hp
    · rw [List.mem_singleton.mp hp]
      refine citesOnly_arr.mpr fun x hx => ?_
      obtain ⟨n, hn, rfl⟩ := List.mem_map.mp hx
      exact inert_str (hr n hn)
  · rcases List.mem_cons.mp hp with rfl | hp
    · dsimp only
      cases ht : Config.title? config with
      | none => exact inert_str hname
      | some t => exact inert_of_config hc (Option.filter_eq_some_iff.mp ht).1
    · rw [List.mem_singleton.mp hp]
      exact inert_str (by decide)
  · obtain ⟨v, hv, rfl⟩ := Option.map_eq_some_iff.mp hp
    obtain ⟨d, hd, rfl⟩ := Option.map_eq_some_iff.mp hv
    exact inert_str (hdoc d hd)
  · obtain ⟨v, hv, rfl⟩ := Option.map_eq_some_iff.mp hp
    obtain ⟨b, -, rfl⟩ := Option.map_eq_some_iff.mp hv
    exact citesOnly_bool b

theorem inert_schemaEntries (hc : InertConfig config) :
    Inert (.obj (Config.schemaEntries config)) := by
  rw [Config.schemaEntries]
  cases hj : Entries.get? config "json_schema_extra" with
  | none => exact citesOnly_nil
  | some j =>
    cases j with
    | obj e => exact inert_of_config hc hj
    | _ => exact citesOnly_nil

theorem get?_of_overlay {e : Entries Json} (h : Overlay e) : Entries.get? e "$ref" = none := by
  refine Entries.get?_eq_none_iff.mpr fun hm => ?_
  obtain ⟨p, hp, hk⟩ := List.mem_map.mp hm
  exact (h p hp).1 hk

theorem get?_ref_recordEntries (hc : InertConfig config) (ps : List Property) :
    Entries.get? (recordEntries name doc config ps) "$ref" = none := by
  have htop := Entries.get?_eq_none_iff.mp
    (get?_of_overlay (overlay_of_inert (inert_schemaEntries hc)))
  rw [recordEntries_eq, Entries.get?_override_of_notMem htop, Entries.get?, if_neg (by decide)]
  exact Entries.get?_eq_none_iff.mpr (notMem_keys_recordRest _ (by decide))

theorem mem_of_mem_propertiesOf {ps : List Property} {q : String × Json}
    (h : q ∈ propertiesOf ps) : ∃ p ∈ ps, (p.name, .obj p.schema) = q := by
  rw [propertiesOf, Entries.ofList] at h
  exact List.mem_map.mp ((Entries.mem_of_mem_override h).resolve_left List.not_mem_nil)

theorem get?_ref_propertiesOf {ps : List Property} (hps : ∀ p ∈ ps, p.name ≠ "$ref") :
    Entries.get? (propertiesOf ps) "$ref" = none := by
  refine Entries.get?_eq_none_iff.mpr fun hm => ?_
  obtain ⟨q, hq, hk⟩ := List.mem_map.mp hm
  obtain ⟨r, hr, rfl⟩ := mem_of_mem_propertiesOf hq
  exact hps r hr hk

theorem citesOnly_propertiesOf {ps : List Property} (hps : ∀ p ∈ ps, p.Cites known) :
    CitesOnly known (.obj (propertiesOf ps)) := by
  have hmem : ∀ q ∈ propertiesOf ps, ∃ p ∈ ps, (p.name, .obj p.schema) = q :=
    fun q hq => mem_of_mem_propertiesOf hq
  refine citesOnly_obj.mpr ⟨Entries.nodup_keys_ofList _, fun v hv => ?_, fun q hq _ => ?_,
    fun items hi => ?_⟩
  · rw [get?_ref_propertiesOf fun p hp => (hps p hp).1.word] at hv
    cases hv
  · obtain ⟨p, hp, rfl⟩ := hmem q hq
    exact (hps p hp).2
  · obtain ⟨p, hp, heq⟩ := hmem _ (Entries.mem_of_get? hi)
    cases (Prod.mk.inj heq).2

theorem silent_requiredOf {ps : List Property} (hps : ∀ p ∈ ps, p.Cites known) :
    ∀ n ∈ requiredOf ps, Silent n := by
  intro n hn
  obtain ⟨p, hp, rfl⟩ := List.mem_map.mp hn
  exact (hps p (List.mem_filter.mp hp).1).1

theorem citesOnly_recordEntries (hname : Silent name)
    (hdoc : ∀ d, Text.describedBy doc = some d → Silent d) (hc : InertConfig config)
    {ps : List Property} (hps : ∀ p ∈ ps, p.Cites known) :
    CitesOnly known (.obj (recordEntries name doc config ps)) := by
  have hrest := overlay_recordRest hname hdoc hc (silent_requiredOf hps)
  rw [recordEntries_eq]
  refine citesOnly_override (citesOnly_entry (notMem_keys_recordRest _ (by decide)) (by decide)
    (by decide) (citesOnly_propertiesOf hps) ?_) (overlay_of_inert (inert_schemaEntries hc))
  exact .of_inert (citesOnly_of_overlay hrest (nodup_keys_recordRest _))

/-! ## Records with values for references -/

/-- Whether two properties are alike, each with values for references. -/
structure Property.Like (env env' : String → Json) (p q : Property) : Prop where
  name : p.name = q.name
  isRequired : p.isRequired = q.isRequired
  schema : Json.Alike (Json.resolved env (.obj p.schema)) (Json.resolved env' (.obj q.schema))

variable {env env' : String → Json} {ps qs : List Property}

theorem requiredOf_eq (h : List.Forall₂ (Property.Like env env') ps qs) :
    requiredOf ps = requiredOf qs := by
  induction h with
  | nil => rfl
  | cons hp _ ih =>
    rw [requiredOf, requiredOf] at ih ⊢
    rw [List.filter_cons, List.filter_cons, hp.isRequired]
    split
    · rw [List.map_cons, List.map_cons, hp.name, ih]
    · exact ih

theorem rel_get?_override {e e' : Entries Json}
    (h : ∀ k, Option.Rel Json.Alike (Entries.get? e k) (Entries.get? e' k)) {xs ys : Entries Json}
    (hxy : List.Forall₂ (fun p q => p.1 = q.1 ∧ Json.Alike p.2 q.2) xs ys) (k : String) :
    Option.Rel Json.Alike (Entries.get? (Entries.override e xs) k)
      (Entries.get? (Entries.override e' ys) k) := by
  induction hxy generalizing e e' with
  | nil => exact h k
  | @cons p q xs ys hpq _ ih =>
    refine ih fun k' => ?_
    rw [Entries.get?_put, Entries.get?_put, hpq.1]
    split
    · exact .some hpq.2
    · exact h k'

theorem alike_propertiesOf (hps : ∀ p ∈ ps, p.name ≠ "$ref")
    (h : List.Forall₂ (Property.Like env env') ps qs) :
    Json.Alike (Json.resolved env (.obj (propertiesOf ps)))
      (Json.resolved env' (.obj (propertiesOf qs))) := by
  have hqs : ∀ q ∈ qs, q.name ≠ "$ref" := by
    intro q hq
    obtain ⟨p, hp, hpq⟩ := Shaping.exists_of_forall₂ h.flip hq
    rw [← hpq.name]
    exact hps p hp
  have hlists : List.Forall₂ (fun p q : String × Json => p.1 = q.1 ∧ Json.Alike p.2 q.2)
      (ps.map fun p => (p.name, Json.resolved env (.obj p.schema)))
      (qs.map fun p => (p.name, Json.resolved env' (.obj p.schema))) := by
    rw [List.forall₂_map_left_iff, List.forall₂_map_right_iff]
    exact h.imp fun p q hpq => ⟨hpq.name, hpq.schema⟩
  rw [Json.resolved_plain (get?_ref_propertiesOf hps),
    Json.resolved_plain (get?_ref_propertiesOf hqs), Json.alike_obj,
    propertiesOf, propertiesOf, Entries.mapValues_ofList, Entries.mapValues_ofList,
    Entries.mapValues, Entries.mapValues, List.map_map, List.map_map]
  exact rel_get?_override (fun _ => .none) hlists

theorem resolved_overlay (env : String → Json) {e : Entries Json} (h : Overlay e) :
    Entries.mapValues (Json.resolved env) e = e := by
  refine (List.map_congr_left fun p hp => ?_).trans (List.map_id' _)
  rw [Json.resolved_of_inert (h p hp).2]

theorem resolved_recordEntries (env : String → Json) (hname : Silent name)
    (hdoc : ∀ d, Text.describedBy doc = some d → Silent d) (hc : InertConfig config)
    (hr : ∀ n ∈ requiredOf ps, Silent n) :
    Json.resolved env (.obj (recordEntries name doc config ps)) =
      .obj (Entries.override (("properties", Json.resolved env (.obj (propertiesOf ps))) ::
        recordRest name doc config (requiredOf ps)) (Config.schemaEntries config)) := by
  rw [Json.resolved_plain (get?_ref_recordEntries hc ps), recordEntries_eq,
    Entries.mapValues_override, resolved_overlay env (overlay_of_inert (inert_schemaEntries hc))]
  have hrest := resolved_overlay env (overlay_recordRest hname hdoc hc hr)
  rw [Entries.mapValues] at hrest ⊢
  rw [List.map_cons, hrest]

theorem alike_recordEntries (hname : Silent name)
    (hdoc : ∀ d, Text.describedBy doc = some d → Silent d) (hc : InertConfig config)
    (hps : ∀ p ∈ ps, Silent p.name) (h : List.Forall₂ (Property.Like env env') ps qs) :
    Json.Alike (Json.resolved env (.obj (recordEntries name doc config ps)))
      (Json.resolved env' (.obj (recordEntries name doc config qs))) := by
  have hr : ∀ n ∈ requiredOf ps, Silent n := by
    intro n hn
    obtain ⟨p, hp, rfl⟩ := List.mem_map.mp hn
    exact hps p (List.mem_filter.mp hp).1
  rw [resolved_recordEntries env hname hdoc hc hr,
    resolved_recordEntries env' hname hdoc hc (requiredOf_eq h ▸ hr), Json.alike_obj,
    requiredOf_eq h]
  have hnx := (citesOnly_obj.mp (inert_schemaEntries hc)).1
  intro k
  rw [Entries.get?_override _ hnx, Entries.get?_override _ hnx]
  refine rel_or (rel_refl .refl _) ?_
  rw [Entries.get?, Entries.get?]
  split
  · exact .some (alike_propertiesOf (fun p hp => (hps p hp).word) h)
  · exact rel_refl .refl _

/-! ## Echoes -/

/-- The entries of a schema that do not repeat those of what it refers to. -/
def withoutEchoesOf (target : Json) (e : Entries Json) : Entries Json :=
  e.filter fun p => p.1 = "$ref" || !(target.get? p.1).any (fun k => k.equal p.2)

/-- Whether the second property is the first, possibly without what repeats the definition that it
refers to. -/
structure Echoes (definitions : Entries Json) (p q : Property) : Prop where
  name : p.name = q.name
  isRequired : p.isRequired = q.isRequired
  schema : q.schema = p.schema ∨ ∃ label target, Refers p.schema label ∧
    Entries.get? definitions label = some target ∧ q.schema = withoutEchoesOf target p.schema

theorem Echoes.mono {ds ds' : Entries Json} {p q : Property} (h : Echoes ds p q)
    (hd : ∀ label d, Entries.get? ds label = some d → Entries.get? ds' label = some d) :
    Echoes ds' p q where
  name := h.name
  isRequired := h.isRequired
  schema := h.schema.imp_right fun ⟨label, target, hr, ht, hs⟩ =>
    ⟨label, target, hr, hd label target ht, hs⟩

theorem map_name_of_echoes {ds : Entries Json} (h : List.Forall₂ (Echoes ds) ps qs) :
    qs.map Property.name = ps.map Property.name := by
  induction h with
  | nil => rfl
  | cons hpq _ ih => rw [List.map_cons, List.map_cons, hpq.name, ih]

theorem citesOnly_withoutEchoesOf {e : Entries Json} (h : CitesOnly known (.obj e)) (target : Json) :
    CitesOnly known (.obj (withoutEchoesOf target e)) := citesOnly_filter h _

theorem Echoes.cites {ds : Entries Json} {p q : Property} (h : Echoes ds p q)
    (hp : p.Cites known) : q.Cites known := by
  refine ⟨h.name ▸ hp.1, ?_⟩
  rcases h.schema with hs | ⟨label, target, -, -, hs⟩
  · rw [hs]
    exact hp.2
  · rw [hs]
    exact citesOnly_withoutEchoesOf hp.2 target

/-- The same is found under each key, but for what is repeated. -/
theorem get?_withoutEchoesOf {e : Entries Json} (hn : (Entries.keys e).Nodup)
    (target : Entries Json) (k : String) :
    Entries.get? (withoutEchoesOf (.obj target) e) k = Entries.get? e k ∨
      k ≠ "$ref" ∧ Entries.get? (withoutEchoesOf (.obj target) e) k = none ∧
        ∃ v w, Entries.get? e k = some v ∧ Entries.get? target k = some w ∧ w.equal v := by
  rw [withoutEchoesOf, Entries.get?_filter hn]
  cases Entries.get? e k with
  | none => exact .inl rfl
  | some v =>
    rw [Option.filter_some]
    split
    · exact .inl rfl
    · rename_i hrepeated
      simp only [Bool.or_eq_true, decide_eq_true_eq, Bool.not_eq_true', not_or,
        Bool.not_eq_false, Option.any_eq_true, Json.get?, Json.entries_obj] at hrepeated
      obtain ⟨hk, w, hw, hvw⟩ := hrepeated
      exact .inr ⟨hk, rfl, v, w, rfl, hw, hvw⟩

theorem refers_withoutEchoesOf {e target : Entries Json} (hn : (Entries.keys e).Nodup)
    {label : String} (href : Refers e label) : Refers (withoutEchoesOf (.obj target) e) label := by
  rcases get?_withoutEchoesOf hn target "$ref" with h | h
  · exact h.trans href
  · exact absurd rfl h.1

/-- What a schema repeats of the definition that it refers to makes no difference. -/
theorem alike_withoutEchoesOf {e target : Entries Json} {known' : String → Prop} {label : String}
    (he : CitesOnly known (.obj e)) (htarget : CitesOnly known' (.obj target))
    (hnone : Entries.get? target "$ref" = none) (href : Refers e label)
    (hlabel : env label = Json.resolved env (.obj target)) :
    Json.Alike (Json.resolved env (.obj e))
      (Json.resolved env (.obj (withoutEchoesOf (.obj target) e))) := by
  obtain ⟨hn, -, hcite, -⟩ := citesOnly_obj.mp he
  have hn' : (Entries.keys (withoutEchoesOf (.obj target) e)).Nodup :=
    (citesOnly_obj.mp (citesOnly_withoutEchoesOf he _)).1
  rw [Json.resolved_refers href, Json.resolved_refers (refers_withoutEchoesOf hn href), hlabel,
    Json.resolved_plain hnone, Json.override, Json.override, Json.alike_obj]
  intro k
  simp only [Json.entries_obj, Entries.get?_override _ (Json.keys_siblings _ hn),
    Entries.get?_override _ (Json.keys_siblings _ hn'), Entries.get?_without,
    Entries.get?_mapValues]
  by_cases hk : k = "$ref"
  · rw [if_pos hk, if_pos hk]
    exact rel_refl .refl _
  · rw [if_neg hk, if_neg hk]
    rcases get?_withoutEchoesOf hn target k with hsame | ⟨-, hnone', v, w, hv, hw, hvw⟩
    · rw [hsame]
      exact rel_refl .refl _
    · have hcv : CitesOnly (fun n => known n ∨ known' n) v :=
        (hcite (k, v) (Entries.mem_of_get? hv) hk).mono fun _ => .inl
      have hcw : CitesOnly (fun n => known n ∨ known' n) w :=
        ((citesOnly_obj.mp htarget).2.2.1 (k, w) (Entries.mem_of_get? hw) hk).mono fun _ => .inr
      have halike := (Json.alike_of_equal hcw.distinct hcv.distinct hvw).symm
      rw [hv, hnone', hw]
      exact .some (Json.alike_resolved hcv hcw halike fun _ _ => .refl _)

theorem Echoes.like {ds : Entries Json} (hs : Solves ds env) {p q : Property} (h : Echoes ds p q)
    (hp : p.Cites known)
    (hd : ∀ label d, Entries.get? ds label = some d →
      ∃ e known', d = .obj e ∧ Entries.get? e "$ref" = none ∧ CitesOnly known' d) :
    Property.Like env env p q := by
  refine ⟨h.name, h.isRequired, ?_⟩
  rcases h.schema with heq | ⟨label, target, hrefers, htarget, heq⟩
  · rw [heq]
    exact .refl _
  · obtain ⟨e, known', rfl, hnone, hcite⟩ := hd label target htarget
    rw [heq]
    exact alike_withoutEchoesOf hp.2 hcite hnone hrefers (hs label _ htarget)

end Procedoc
