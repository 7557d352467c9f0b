import Mathlib.Data.List.Nodup
import Procedoc.Proofs.Operation.Course
import Procedoc.Proofs.Reading
import Procedoc.Proofs.Rendering.Outcome

/-! # Where an operation documents the fields of its input

Each field of an input is documented once.  `operation_places_fields` says where: the placeholders
of the template are the parameters in the path; what is left makes the body of the request where the
method has one, and the parameters in the query else.
-/

namespace Procedoc
set_option autoImplicit false

/-! ## Keys of what is read as an input -/

namespace Schema

theorem inherits_nodup_keys : Inherits fun s => s.keys.Nodup where
  text _ := .nil
  other _ := .nil
  described _ _ _ _ h := h
  checked _ _ _ := .nil

theorem nodup_keys_ofSource {c : Catalog} {role : String} {source : Source} {s : Schema}
    (hs : ∀ given, source = .schema given → given.keys.Nodup)
    (h : ofSource c role source = .ok s) : s.keys.Nodup :=
  inherits_nodup_keys.ofSource (fun _ _ _ => Entries.nodup_keys_ofList _) hs h

end Schema

/-! ## Parameters -/

/-- A parameter carries a field: its schema is that of the field, and it is required unless the
field may be left out. -/
def Parameter.Carries (c : Catalog) (q : Parameter) (s : Schema) : Prop :=
  (s.render c .input).outcome = .ok q.schema ∧ q.required = !s.isOptional

theorem Schema.parameter_eq_ok {c : Catalog} {location : Location} {name : String} {s : Schema}
    {q : Parameter} (h : (s.parameter c location name).outcome = .ok q) :
    (q.name, q.location) = (name, location) ∧ q.Carries c s := by
  unfold parameter at h
  split at h
  · obtain ⟨schema, hr, h⟩ := Traced.outcome_bind_eq_ok.mp h
    cases h
    exact ⟨rfl, hr, rfl⟩
  · cases h

theorem Schema.parameter_of_text {c : Catalog} {s : Schema} (hk : s.base.kind = .string) {j : Json}
    (hj : (s.render c .input).outcome = .ok j) (location : Location) (name : String) :
    (s.parameter c location name).outcome = .ok ⟨name, location, !s.isOptional, j⟩ := by
  rw [parameter, if_pos hk]
  exact Traced.outcome_bind_eq_ok.mpr ⟨j, hj, rfl⟩

theorem parametersOf_eq_ok {c : Catalog} {location : Location} {fields : Entries Schema}
    {qs : List Parameter} (h : (parametersOf c location fields).outcome = .ok qs) :
    (qs.map fun q => (q.name, q.location)) = (Entries.keys fields).map (fun n => (n, location)) ∧
      ∀ q ∈ qs, ∃ s, (q.name, s) ∈ fields ∧ q.Carries c s := by
  induction fields generalizing qs with
  | nil =>
    cases h
    exact ⟨rfl, by simp⟩
  | cons f rest ih =>
    obtain ⟨q, hq, h⟩ := Traced.outcome_bind_eq_ok.mp h
    obtain ⟨others, hothers, h⟩ := Traced.outcome_bind_eq_ok.mp h
    cases h
    obtain ⟨hname, hcarries⟩ := Schema.parameter_eq_ok hq
    obtain ⟨hnames, hall⟩ := ih hothers
    refine ⟨by rw [List.map_cons, hname, hnames]; rfl, fun r hr => ?_⟩
    rcases List.mem_cons.mp hr with rfl | hr
    · exact ⟨f.2, by rw [show r.name = f.1 from congrArg Prod.fst hname]; exact .head _, hcarries⟩
    · obtain ⟨s, hs, hc⟩ := hall r hr
      exact ⟨s, .tail _ hs, hc⟩

theorem path_parameters_eq_ok {c : Catalog} {s : Schema} {template : String} {parts : Partition}
    {qs : List Parameter} (hp : s.partition template = .ok parts)
    (h : (parts.path.parameters c .path).outcome = .ok qs) :
    (qs.map fun q => (q.name, q.location)) =
        (Template.placeholders template).eraseDups.map (fun n => (n, Location.path)) ∧
      ∀ q ∈ qs, ∃ f, Entries.get? s.fields q.name = some f ∧ q.Carries c f := by
  obtain ⟨head, fields, o, rfl, hnamed, hpath, -⟩ := Schema.partition_eq_ok hp
  rw [hpath] at h
  obtain ⟨hnames, hall⟩ := parametersOf_eq_ok h
  rw [keys_pickFields hnamed] at hnames
  refine ⟨hnames, fun q hq => ?_⟩
  obtain ⟨f, hf, hc⟩ := hall q hq
  exact ⟨f, get?_of_mem_pickFields hf, hc⟩

theorem query_parameters_eq_ok {c : Catalog} {s : Schema} {template : String} {parts : Partition}
    {qs : List Parameter} (hk : s.keys.Nodup) (hp : s.partition template = .ok parts)
    (h : (parts.rest.parameters c .query).outcome = .ok qs) :
    (qs.map fun q => (q.name, q.location)) =
        (s.keys.filter fun k => !(Template.placeholders template).eraseDups.contains k).map
          (fun n => (n, Location.query)) ∧
      ∀ q ∈ qs, ∃ f, Entries.get? s.fields q.name = some f ∧ q.Carries c f := by
  obtain ⟨head, fields, o, rfl, -, -, hrest⟩ := Schema.partition_eq_ok hp
  rw [Schema.without_object, Except.ok.injEq] at hrest
  rw [← hrest] at h
  obtain ⟨hnames, hall⟩ := parametersOf_eq_ok h
  have hsame : (fun k => !(Template.placeholders template).contains k) =
      fun k => !(Template.placeholders template).eraseDups.contains k := by
    funext k
    simp [List.contains_eq_mem, List.mem_eraseDups]
  rw [Entries.keys_withoutAll, hsame] at hnames
  refine ⟨hnames, fun q hq => ?_⟩
  obtain ⟨f, hf, hc⟩ := hall q hq
  exact ⟨f, Entries.get?_of_mem hk (List.mem_filter.mp hf).1, hc⟩

/-! ## Operations -/

namespace Procedure

/-- What is taken for the input of a procedure: one without input has an object without fields. -/
def inputSource (p : Procedure) : Source := p.input.getD (.schema (.ofFields {} []))

/-- Whether a procedure has an input that travels in a body. -/
def bringsBody (p : Procedure) : Bool := p.method.hasBody && p.input.isSome

/-- The catalog in which the fields of the input are rendered. -/
def fieldCatalog (c : Catalog) (p : Procedure) : Catalog :=
  if p.bringsBody then c.heedSource p.inputSource else c

theorem inputs_of_bringsBody {c : Catalog} {p : Procedure} (h : p.bringsBody = true) :
    p.inputs c = do
      let r ← p.inputSource.request c p.path
      return (some r.body, r.parameters) := by
  obtain ⟨hm, hi⟩ := Bool.and_eq_true_iff.mp h
  obtain ⟨source, hs⟩ := Option.isSome_iff_exists.mp hi
  simp only [inputs, inputSource, hs, hm, Option.getD_some]

theorem inputs_of_not_bringsBody {c : Catalog} {p : Procedure} (h : p.bringsBody = false) :
    p.inputs c = do return (none, ← p.inputSource.allParameters c p.path) := by
  unfold inputs
  split
  · rename_i source hs hm
    simp [bringsBody, hs, hm] at h
  · rfl

/-- The names of the placeholders of a procedure, each where it comes first. -/
def pathNames (p : Procedure) : List String := (Template.placeholders p.path).eraseDups

/-- The fields of the input that go into neither the path nor a body. -/
def queryNames (p : Procedure) (fields : List String) : List String :=
  if p.bringsBody then [] else fields.filter fun k => !p.pathNames.contains k

/-- How the parameters of an operation stand for the fields of an input. -/
structure PlacesParameters (c : Catalog) (p : Procedure) (fields : Entries Schema)
    (parameters : List Parameter) : Prop where
  /-- The template names fields only. -/
  named : ∀ n ∈ p.pathNames, n ∈ Entries.keys fields
  /-- Those in the path come first. -/
  places : (parameters.map fun q => (q.name, q.location)) =
    p.pathNames.map (fun n => (n, Location.path)) ++
      (p.queryNames (Entries.keys fields)).map (fun n => (n, Location.query))
  carries : ∀ q ∈ parameters, ∃ f, Entries.get? fields q.name = some f ∧
    q.Carries (p.fieldCatalog c) f

/-- The body of an operation stands for the object without the fields that the template names. -/
def PlacesBody (c : Catalog) (p : Procedure) (head : Head) (fields : Entries Schema)
    (origin : Option (Field TypeExpr)) (body : Option Body) : Prop :=
  if p.bringsBody then
    ∃ b rest, body = some b ∧ b.required = !head.mayBeAbsent ∧
      (Schema.object head fields origin).without p.pathNames = .ok rest ∧
      (rest.render (p.fieldCatalog c) .input).outcome = .ok b.schema
  else body = none

variable {c : Catalog} {p : Procedure}

theorem mem_pathNames {n : String} : n ∈ p.pathNames ↔ n ∈ Template.placeholders p.path :=
  List.mem_eraseDups

/-- What an input gives is made from the two parts into which it is split: the parameters in the
path from the one, and the body or the parameters in the query from the other. -/
theorem inputs_eq_ok {body : Option Body} {parameters : List Parameter}
    (h : (p.inputs c).outcome = .ok (body, parameters)) :
    ∃ s parts path, Schema.ofSource c "input" p.inputSource = .ok s ∧
      s.partition p.path = .ok parts ∧
      (parts.path.parameters (p.fieldCatalog c) .path).outcome = .ok path ∧
      (p.bringsBody = true → parameters = path ∧
        ∃ schema, body = some ⟨!parts.rest.isOptional, schema⟩ ∧
          (parts.rest.render (p.fieldCatalog c) .input).outcome = .ok schema) ∧
      (p.bringsBody = false → body = none ∧ ∃ query, parameters = path ++ query ∧
        (parts.rest.parameters (p.fieldCatalog c) .query).outcome = .ok query) := by
  cases hb : p.bringsBody with
  | true =>
    rw [inputs_of_bringsBody hb] at h
    obtain ⟨r, hr, h⟩ := Traced.outcome_bind_eq_ok.mp h
    cases h
    obtain ⟨s, hs, hr⟩ := Traced.outcome_bind_eq_ok.mp hr
    obtain ⟨parts, hparts, hr⟩ := Traced.outcome_bind_eq_ok.mp hr
    obtain ⟨path, hpath, hr⟩ := Traced.outcome_bind_eq_ok.mp hr
    obtain ⟨schema, hschema, hr⟩ := Traced.outcome_bind_eq_ok.mp hr
    cases hr
    rw [fieldCatalog, if_pos hb]
    exact ⟨s, parts, path, hs, Schema.partitioned_eq_ok.mp hparts, hpath,
      fun _ => ⟨rfl, schema, rfl, hschema⟩, nofun⟩
  | false =>
    rw [inputs_of_not_bringsBody hb] at h
    obtain ⟨qs, hq, h⟩ := Traced.outcome_bind_eq_ok.mp h
    cases h
    obtain ⟨s, hs, hq⟩ := Traced.outcome_bind_eq_ok.mp hq
    obtain ⟨parts, hparts, hq⟩ := Traced.outcome_bind_eq_ok.mp hq
    obtain ⟨path, hpath, hq⟩ := Traced.outcome_bind_eq_ok.mp hq
    obtain ⟨query, hquery, hq⟩ := Traced.outcome_bind_eq_ok.mp hq
    cases hq
    rw [fieldCatalog, hb]
    exact ⟨s, parts, path, hs, Schema.partitioned_eq_ok.mp hparts, hpath, nofun,
      fun _ => ⟨rfl, query, rfl, hquery⟩⟩

theorem inputs_places {body : Option Body} {parameters : List Parameter}
    (hk : ∀ given, p.inputSource = .schema given → given.keys.Nodup)
    (h : (p.inputs c).outcome = .ok (body, parameters)) :
    ∃ head fields o, Schema.ofSource c "input" p.inputSource = .ok (.object head fields o) ∧
      PlacesParameters c p fields parameters ∧ PlacesBody c p head fields o body := by
  obtain ⟨i, parts, path, hi, hp, hpath, hbody, hnobody⟩ := inputs_eq_ok h
  have hkeys : i.keys.Nodup := Schema.nodup_keys_ofSource hk hi
  obtain ⟨hplaces, hcarries⟩ := path_parameters_eq_ok hp hpath
  have hsplit := hp
  obtain ⟨head, fields, o, rfl, hnamed, -, hrest⟩ := Schema.partition_eq_ok hsplit
  refine ⟨head, fields, o, hi, ?_⟩
  cases hb : p.bringsBody with
  | true =>
    obtain ⟨rfl, schema, rfl, hschema⟩ := hbody hb
    refine ⟨⟨fun n hn => hnamed n (mem_pathNames.mp hn), ?_, hcarries⟩, ?_⟩
    · rw [queryNames, if_pos hb, List.map_nil, List.append_nil]
      exact hplaces
    · rw [PlacesBody, if_pos hb]
      refine ⟨_, parts.rest, rfl, ?_, ?_, hschema⟩
      · rw [Schema.without_object, Except.ok.injEq] at hrest
        rw [← hrest]
        simp only [Schema.isOptional]
        split <;> rfl
      · rw [← hrest]
        exact Schema.without_congr _ fun n => mem_pathNames
  | false =>
    obtain ⟨rfl, query, rfl, hquery⟩ := hnobody hb
    obtain ⟨hqplaces, hqcarries⟩ := query_parameters_eq_ok hkeys hp hquery
    refine ⟨⟨fun n hn => hnamed n (mem_pathNames.mp hn), ?_, fun q hq => ?_⟩, ?_⟩
    · rw [List.map_append, hplaces, hqplaces, queryNames, hb]
      rfl
    · rcases List.mem_append.mp hq with hq | hq
      · exact hcarries q hq
      · exact hqcarries q hq
    · rw [PlacesBody, hb]
      rfl

theorem PlacesParameters.nodup {fields : Entries Schema} {parameters : List Parameter}
    (h : PlacesParameters c p fields parameters) (hk : (Entries.keys fields).Nodup) :
    (parameters.map fun q => (q.name, q.location)).Nodup := by
  have hnames : p.pathNames.Nodup := Entries.nodup_eraseDups _
  have hquery : (p.queryNames (Entries.keys fields)).Nodup := by
    unfold queryNames
    split
    · exact .nil
    · exact hk.filter _
  have hinj (l : Location) : Function.Injective fun n : String => (n, l) :=
    fun _ _ h => congrArg Prod.fst h
  rw [h.places]
  refine List.nodup_append.mpr
    ⟨hnames.map (hinj _), hquery.map (hinj _), fun a ha b hb heq => ?_⟩
  obtain ⟨n, -, rfl⟩ := List.mem_map.mp ha
  obtain ⟨m, -, rfl⟩ := List.mem_map.mp hb
  cases heq

theorem inputs_of_inputless (hi : p.input = none) (ht : Template.placeholders p.path = []) :
    (p.inputs c).outcome = .ok (none, []) := by
  have hparts : (Schema.ofFields {} []).partition p.path =
      .ok ⟨.ofFields {} [], .ofFields {} []⟩ := by
    simp only [Schema.ofFields, Schema.partition, Template.placeholdersIn, ht]
    rfl
  rw [inputs_of_not_bringsBody (by simp [bringsBody, hi]), inputSource, hi]
  refine Traced.outcome_bind_eq_ok.mpr ⟨[], ?_, rfl⟩
  refine Traced.outcome_bind_eq_ok.mpr ⟨_, rfl, ?_⟩
  exact Traced.outcome_bind_eq_ok.mpr ⟨_, Schema.partitioned_eq_ok.mpr hparts, rfl⟩

theorem heedInput_of_inputless (hi : p.input = none) : p.heedInput c = c := by rw [heedInput, hi]

theorem operation_of_inputless {r : Responses} (hi : p.input = none)
    (ht : Template.placeholders p.path = []) (hr : (p.output.responses c).outcome = .ok r) :
    (p.operation c).outcome = .ok {
      id := p.name
      summary := p.summary
      description := p.description
      tags := p.tags
      deprecated := p.deprecated
      responses := r } := by
  refine Traced.outcome_about_eq_ok.mpr
    (Traced.outcome_bind_eq_ok.mpr ⟨_, inputs_of_inputless hi ht, ?_⟩)
  rw [heedInput_of_inputless hi]
  exact Traced.outcome_bind_eq_ok.mpr ⟨r, hr, rfl⟩

end Procedure

/-- Every field of an input is documented exactly once.  The placeholders of the template are fields,
and they are the parameters in the path, in the order in which they come first and before all
others.  An input that travels in a body has no other parameters, and the body is the object without
these fields; of any other input the remaining fields are the parameters in the query, in order. -/
theorem operation_places_fields {c : Catalog} {p : Procedure} {op : Operation}
    (hk : ∀ given, p.input = some (.schema given) → given.keys.Nodup)
    (h : (p.operation c).outcome = .ok op) :
    ∃ head fields origin,
      Schema.ofSource c "input" p.inputSource = .ok (.object head fields origin) ∧
      (p.input = none → fields = []) ∧
      p.PlacesParameters c fields op.parameters ∧
      (op.parameters.map fun q => (q.name, q.location)).Nodup ∧
      p.PlacesBody c head fields origin op.body := by
  obtain ⟨⟨body, parameters⟩, hi, h⟩ := Traced.outcome_bind_eq_ok.mp (Traced.outcome_about_eq_ok.mp h)
  obtain ⟨responses, -, h⟩ := Traced.outcome_bind_eq_ok.mp h
  cases h
  have hgiven : ∀ given, p.inputSource = .schema given → given.keys.Nodup := by
    intro given hs
    cases hp : p.input with
    | none =>
      rw [Procedure.inputSource, hp] at hs
      cases hs
      exact .nil
    | some source =>
      rw [Procedure.inputSource, hp] at hs
      exact hk given (by rw [hp]; exact congrArg some hs)
  obtain ⟨head, fields, origin, hs, hparams, hbody⟩ := Procedure.inputs_places hgiven hi
  refine ⟨head, fields, origin, hs, fun hnone => ?_, hparams,
    hparams.nodup (Schema.nodup_keys_ofSource hgiven hs), hbody⟩
  rw [Procedure.inputSource, hnone] at hs
  cases hs
  rfl

/-- A procedure that replaces one of two texts. -/
def replacement : Procedure where
  name := "replace"
  method := .put
  path := "/notes/{id}/{id}"
  input := some (.schema (.ofFields {} [
    ("title", .optional (.text { type := some .str } none)), ("id", .text {} none)]))
  output := .schema (.text {} none)

theorem operation_places_fields_replacement :
    ∃ op, (replacement.operation {}).outcome = .ok op ∧ ∃ head fields origin,
      Schema.ofSource {} "input" replacement.inputSource = .ok (.object head fields origin) ∧
      replacement.PlacesParameters {} fields op.parameters ∧
      replacement.PlacesBody {} head fields origin op.body := by
  have hnames : Template.placeholders "/notes/{id}/{id}" = ["id", "id"] := by decide +kernel
  have hid : ∃ j, (Schema.render {} .input (.text {} none)).outcome = .ok j :=
    Schema.render_isOk rfl (by decide +kernel)
  have htitle : ∃ j, (Schema.render {} .input (.ofFields {}
      [("title", .optional (.text { type := some .str } none))])).outcome = .ok j :=
    Schema.render_isOk rfl (by decide +kernel)
  have hresponses : ∃ r, ((Source.schema (.text {} none)).responses
      (replacement.heedInput {})).outcome = .ok r :=
    Source.responses_isOk (by decide +kernel)
  obtain ⟨id, hid⟩ := hid
  obtain ⟨title, htitle⟩ := htitle
  obtain ⟨responses, hresponses⟩ := hresponses
  have hparts : (Schema.ofFields {} [("title", .optional (.text { type := some .str } none)),
      ("id", .text {} none)]).partition "/notes/{id}/{id}" =
      .ok ⟨.ofFields {} [("id", .text {} none)],
        .ofFields {} [("title", .optional (.text { type := some .str } none))]⟩ := by
    simp only [Schema.ofFields, Schema.partition, Template.placeholdersIn, hnames]
    rfl
  have hparameter : (Schema.parameter {} .path "id" (.text {} none)).outcome =
      .ok ⟨"id", .path, true, id⟩ := Traced.outcome_bind_eq_ok.mpr ⟨id, hid, rfl⟩
  have hinputs : (replacement.inputs {}).outcome =
      .ok (some ⟨true, title⟩, [⟨"id", .path, true, id⟩]) := by
    rw [Procedure.inputs_of_bringsBody rfl]
    refine Traced.outcome_bind_eq_ok.mpr ⟨⟨⟨true, title⟩, [⟨"id", .path, true, id⟩]⟩, ?_, rfl⟩
    refine Traced.outcome_bind_eq_ok.mpr ⟨_, rfl, ?_⟩
    refine Traced.outcome_bind_eq_ok.mpr ⟨_, Schema.partitioned_eq_ok.mpr hparts, ?_⟩
    refine Traced.outcome_bind_eq_ok.mpr ⟨[⟨"id", .path, true, id⟩], ?_, ?_⟩
    · exact Traced.outcome_bind_eq_ok.mpr ⟨_, hparameter, rfl⟩
    · exact Traced.outcome_bind_eq_ok.mpr ⟨title, htitle, rfl⟩
  have hop : (replacement.operation {}).outcome = .ok {
      id := "replace"
      body := some ⟨true, title⟩
      parameters := [⟨"id", .path, true, id⟩]
      responses } := Traced.outcome_about_eq_ok.mpr (Traced.outcome_bind_eq_ok.mpr
    ⟨_, hinputs, Traced.outcome_bind_eq_ok.mpr ⟨responses, hresponses, rfl⟩⟩)
  have hk : ∀ given, replacement.input = some (.schema given) → given.keys.Nodup := by
    intro given hg
    cases hg
    decide
  obtain ⟨head, fields, origin, hs, -, hparams, -, hbody⟩ := operation_places_fields hk hop
  exact ⟨_, hop, head, fields, origin, hs, hparams, hbody⟩

end Procedoc
