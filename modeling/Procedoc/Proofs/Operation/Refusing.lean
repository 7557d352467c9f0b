import Procedoc.Proofs.Operation.Ending
import Procedoc.Proofs.Operation.Making

/-! # What operations tell of a type that has no schema

A hindrance at a type is told of as of something that is no schema only where it is one of
`Hindrance.isRefusal`: nothing is known of a part of the type, or nothing describes one.  All others
go through as they are: a limit of the wrong sort, a literal without values, a reference that was
written by hand, and a part of which nothing is known in a record that is put together.

Where these stay away, an operation is documented or ends by the contract on schemas
(`operation_ends_by_contract`), and it says that something is no schema exactly where something is
none.
-/

namespace Procedoc
set_option autoImplicit false

/-! ## Refusals -/

/-- Whether a hindrance is told of as of something that is no schema. -/
def Hindrance.isRefusal : Hindrance → Bool
  | stop .unsupported | stop .unresolved | obstacle .indescribable => true
  | _ => false

theorem Hindrance.fault_eq_of_isRefusal {h : Hindrance} (hr : h.isRefusal = true) (role : String)
    (a : TypeExpr) : h.fault role a = (Violation.notASchema role a.sortName).fault := by
  rcases h with stop | obstacle
  · cases stop <;> first | rfl | cases hr
  · cases obstacle <;> first | rfl | cases hr

theorem Hindrance.isRefusal_of_fault {h : Hindrance} {role received role' : String} {a : TypeExpr}
    (hf : h.fault role a = (Violation.notASchema role' received).fault) : h.isRefusal = true := by
  rcases h with stop | obstacle
  · cases stop <;> first | rfl | cases hf
  · cases obstacle <;> first | rfl | cases hf

/-- Whether a source is a type that nothing but a part without schema stands against. -/
def Source.isTaken (c : Catalog) : Source → Bool
  | .type (.model _) | .schema _ | .value _ => true
  | .type a =>
    match (c.work a).1 with
    | .error .unfit | .error .noValues => false
    | _ => true

namespace Schema

theorem ofSource_eq_error {c : Catalog} {role : String} {source : Source} {f : Fault}
    (ht : source.isTaken c = true) (h : ofSource c role source = .error f) :
    ∃ received, f = (Violation.notASchema role received).fault := by
  unfold ofSource at h
  split at h
  · cases h
  · cases h
  · rename_i a hmodel
    split at h
    · cases h
    · rename_i hw
      simp [Source.isTaken, hw] at ht
    · rename_i hw
      simp [Source.isTaken, hw] at ht
    · cases h
      exact ⟨_, rfl⟩
  · cases h
    exact ⟨_, rfl⟩

/-! ## Schemas that are shown -/

/-- The defaults that the wrappers around a schema give. -/
def defaults : Schema → List Value
  | wrapped w inner _ =>
    (match w with
      | .default (some v) => [v]
      | _ => []) ++
    match inner with
    | some s => defaults s
    | none => []
  | _ => []

attribute [grind =] defaults

variable {c : Catalog} {side : Side}

theorem shown_of_not_wrapper {s : Schema} (h : s.isWrapper = false) {a : TypeExpr}
    (ha : s.type = .ok a) :
    s.shown c side = c.fragmentFor side (orIfEmpty s.name s.kind.name) a := by
  cases s with
  | wrapped => cases h
  | text | other | object =>
    unfold shown
    rw [ha]
    rfl

/-- Where all defaults are data, what is shown for a schema fails as the schema of its type does. -/
theorem shown_eq_error_iff : (s : Schema) → {a : TypeExpr} → s.base.type = .ok a →
    (∀ v ∈ s.defaults, ∃ j, c.data v = .ok j) →
    ∃ role, ∀ f, s.shown c side = .error f ↔ c.fragmentFor side role a = .error f
  | text leaf o, _, ha, _ => ⟨_, fun _ => by rw [shown_of_not_wrapper (s := text leaf o) rfl ha]⟩
  | other leaf o, _, ha, _ => ⟨_, fun _ => by rw [shown_of_not_wrapper (s := other leaf o) rfl ha]⟩
  | object head fields o, _, ha, _ =>
    ⟨_, fun _ => by rw [shown_of_not_wrapper (s := object head fields o) rfl ha]⟩
  | wrapped _ none _, a, ha, _ => by
    rw [base, type] at ha
    cases ha
  | wrapped w (some s) _, a, ha, hd => by
    rw [base] at ha
    obtain ⟨role, hs⟩ := shown_eq_error_iff s ha fun v hv =>
      hd v (by unfold defaults; exact List.mem_append_right _ hv)
    refine ⟨role, fun f => ?_⟩
    rw [← hs f, shown]
    cases s.shown c side with
    | error g => rfl
    | ok e =>
      cases w with
      | optional | effect => rfl
      | default value =>
        cases value with
        | none => rfl
        | some v =>
          obtain ⟨j, hj⟩ := hd v (by rw [defaults]; exact List.mem_append_left _ (.head _))
          simp [hj, bind, Except.bind, pure, Except.pure]

/-- A schema that brings objects only along is rendered, unless the schema of its type is missing. -/
theorem render_eq_error {s : Schema} {a : TypeExpr} {f : Fault} (ha : s.base.type = .ok a)
    (hd : ∀ v ∈ s.defaults, ∃ j, c.data v = .ok j)
    (hb : ∀ e, s.remarked c side = .ok e → ∃ definitions, Brings e definitions)
    (h : (s.render c side).outcome = .error f) :
    ∃ role, c.fragmentFor side role a = .error f := by
  obtain ⟨role, hs⟩ := shown_eq_error_iff s ha hd
  refine ⟨role, (hs f).mp ?_⟩
  cases hm : s.remarked c side with
  | ok e =>
    obtain ⟨definitions, hbrings⟩ := hb e hm
    have hok := render_eq_ok.mpr ⟨e, hm, congrArg Traced.outcome (inlined_of_brings hbrings)⟩
    rw [h] at hok
    cases hok
  | error g =>
    rw [remarked] at hm
    cases hshown : s.shown c side with
    | ok e =>
      rw [hshown] at hm
      cases hm
    | error g' =>
      rw [render] at h
      rcases Traced.outcome_bind_eq_error.mp h with h | ⟨e, he, -⟩
      · exact hshown ▸ h
      · rw [show s.shown c side = .ok e from he] at hshown
        cases hshown

theorem exists_fragment_of_render {s : Schema} {a : TypeExpr} {j : Json}
    (ha : s.base.type = .ok a) (hd : ∀ v ∈ s.defaults, ∃ j, c.data v = .ok j)
    (h : (s.render c side).outcome = .ok j) : ∃ e, c.fragment side a = .ok e := by
  obtain ⟨role, hs⟩ := shown_eq_error_iff s ha hd
  obtain ⟨e, he, -⟩ := render_eq_ok.mp h
  cases hf : c.fragment side a with
  | ok e' => exact ⟨e', rfl⟩
  | error hindrance =>
    have herror := (hs _).mpr (Catalog.fragmentFor_eq_error.mpr ⟨hindrance, hf, rfl⟩)
    rw [remarked, herror] at he
    cases he

end Schema

namespace Procedure
variable {c : Catalog} {p : Procedure}

/-! ## What is asked for -/

/-- Whether a procedure has an input that can be split along its path, and only texts go into its
parameters. -/
def Fits (c : Catalog) (p : Procedure) : Prop :=
  ∀ s, Schema.ofSource c "input" p.inputSource = .ok s →
    ∃ parts, s.partition p.path = .ok parts ∧ ∀ f ∈ p.carried parts, f.2.base.kind = .string

/-- The types whose schemas are asked for while a procedure is documented: those of the schemas that
are shown of its input, and the envelope of its output. -/
inductive Asks (c : Catalog) (p : Procedure) : Catalog → Side → TypeExpr → Prop where
  | input {parts : Partition} {s : Schema} {a : TypeExpr} (hp : p.Splits c parts)
      (hs : s ∈ p.shown parts) (ha : s.base.type = .ok a) : Asks c p (p.fieldCatalog c) .input a
  | output {envelope : Record TypeExpr} (he : p.Encloses c envelope) :
      Asks c p (p.answerCatalog c) .output (.record envelope)

/-- Whether all that is asked for is there: input and output are schemas, and so is every type. -/
structure IsDescribed (c : Catalog) (p : Procedure) : Prop where
  input : ∃ parts, p.Splits c parts
  output : ∃ envelope, p.Encloses c envelope
  types : ∀ c' side a, p.Asks c c' side a → ∃ e, c'.fragment side a = .ok e

/-- Whether the schemas that a procedure has been given by hand are complete: each wrapper wraps
something, objects can be put together, and the defaults of parameters are data. -/
structure IsWellBuilt (c : Catalog) (p : Procedure) : Prop where
  filled : ∀ s, p.inputSource = .schema s ∨ p.output = .schema s → s.isFilled = true
  body : ∀ parts, p.bringsBody = true → p.Splits c parts → parts.rest.isMakeable = true
  output : ∀ s, p.output = .schema s → s.makesField = true
  defaults : ∀ parts s v, p.Splits c parts → s ∈ p.shown parts → v ∈ s.defaults →
    ∃ j, (p.fieldCatalog c).data v = .ok j

/-- Whether nothing but a refusal is met where a type or its schema is asked for, and the schemas
that are found can be inlined. -/
structure MeetsRefusals (c : Catalog) (p : Procedure) : Prop where
  input : p.inputSource.isTaken c = true
  output : p.output.isTaken (p.heedInput c) = true
  refuses : ∀ c' side a h, p.Asks c c' side a → c'.fragment side a = .error h →
    h.isRefusal = true
  inputBrings : ∀ parts s e, p.Splits c parts → s ∈ p.shown parts →
    s.remarked (p.fieldCatalog c) .input = .ok e → ∃ definitions, Brings e definitions
  outputBrings : ∀ envelope e, p.Encloses c envelope →
    (p.answerCatalog c).fragment .output (.record envelope) = .ok e →
    ∃ definitions, Brings e definitions

/-- Whether a fault says that something is no schema, of which some is indeed missing. -/
def Refuses (c : Catalog) (p : Procedure) (f : Fault) : Prop :=
  (∃ role received, f = (Violation.notASchema role received).fault) ∧ ¬ p.IsDescribed c

theorem successFragment_of_encloses {envelope : Record TypeExpr} (he : p.Encloses c envelope) :
    p.output.successFragment (p.heedInput c) =
      (p.answerCatalog c).fragmentFor .output envelopeName (.record envelope) := by
  obtain ⟨s, hs, he⟩ := he
  rw [Source.successFragment, hs]
  change (s.envelope >>= _) = _
  rw [he]
  rfl

theorem Splits.unique {parts parts' : Partition} (h : p.Splits c parts)
    (h' : p.Splits c parts') : parts = parts' := by
  obtain ⟨s, hs, hp⟩ := h
  obtain ⟨s', hs', hp'⟩ := h'
  obtain rfl := Except.ok.inj (hs.symm.trans hs')
  exact Except.ok.inj (hp.symm.trans hp')

theorem refuses_of_fragmentFor (hm : p.MeetsRefusals c) {c' : Catalog} {side : Side} {a : TypeExpr}
    (ha : p.Asks c c' side a) {role : String} {f : Fault}
    (h : c'.fragmentFor side role a = .error f) : p.Refuses c f := by
  obtain ⟨hindrance, hf, rfl⟩ := Catalog.fragmentFor_eq_error.mp h
  refine ⟨⟨role, a.sortName, ?_⟩, fun hd => ?_⟩
  · exact Hindrance.fault_eq_of_isRefusal (hm.refuses _ _ _ _ ha hf) role a
  · obtain ⟨e, he⟩ := hd.types _ _ _ ha
    rw [hf] at he
    cases he

theorem isFilled_shown (hb : p.IsWellBuilt c) {parts : Partition} (hp : p.Splits c parts) :
    parts.rest.isFilled = true ∧ ∀ f ∈ p.carried parts, f.2.isFilled = true := by
  obtain ⟨s, hs, hp⟩ := hp
  have hfilled : s.isFilled = true :=
    Schema.isFilled_ofSource (fun given hg => hb.filled given (.inl hg)) hs
  have hall : ∀ f, f ∈ parts.path.fields ∨ f ∈ parts.rest.fields → f.2.isFilled = true := by
    intro f hf
    have hmem := Schema.mem_fields_of_partition hp hf
    obtain ⟨head, fields, o, rfl, -, -, -⟩ := Schema.partition_eq_ok hp
    rw [Schema.isFilled] at hfilled
    exact Schema.areFilled_iff.mp hfilled f hmem
  constructor
  · obtain ⟨head, fields, o, hrest⟩ := Schema.exists_object (Schema.kind_of_partition hp).2
    rw [hrest, Schema.isFilled]
    exact Schema.areFilled_iff.mpr fun f hf => hall f (.inr (by rwa [hrest]))
  · intro f hf
    rw [carried, List.mem_append] at hf
    refine hall f (hf.imp_right fun hf => ?_)
    split at hf
    · cases hf
    · exact hf

theorem exists_type_of_text {s : Schema} (h : s.isFilled = true) (hk : s.base.kind = .string) :
    ∃ a, s.base.type = .ok a := by
  have hw := Schema.isWrapper_base s h
  cases hb : s.base with
  | text leaf o => exact ⟨_, by rw [Schema.type]⟩
  | wrapped =>
    rw [hb] at hw
    cases hw
  | other | object =>
    rw [hb] at hk
    cases hk

theorem exists_type_of_body (hb : p.IsWellBuilt c) {parts : Partition} (hp : p.Splits c parts)
    (hbody : p.bringsBody = true) : ∃ a, parts.rest.base.type = .ok a := by
  obtain ⟨a, ha⟩ := Schema.exists_type _ (isFilled_shown hb hp).1 (hb.body parts hbody hp)
  obtain ⟨s, -, hpart⟩ := hp
  obtain ⟨head, fields, o, hrest⟩ := Schema.exists_object (Schema.kind_of_partition hpart).2
  rw [hrest] at ha ⊢
  exact ⟨a, ha⟩

theorem refuses_of_render (hb : p.IsWellBuilt c) (hm : p.MeetsRefusals c) {parts : Partition}
    (hp : p.Splits c parts) {s : Schema} (hs : s ∈ p.shown parts) {a : TypeExpr}
    (ha : s.base.type = .ok a) {f : Fault}
    (h : (s.render (p.fieldCatalog c) .input).outcome = .error f) : p.Refuses c f := by
  obtain ⟨role, hf⟩ := Schema.render_eq_error ha (fun v => hb.defaults parts s v hp hs)
    (fun e => hm.inputBrings parts s e hp hs) h
  exact refuses_of_fragmentFor hm (.input hp hs ha) hf

theorem InputFails.refuses (hb : p.IsWellBuilt c) (hm : p.MeetsRefusals c) {f : Fault}
    (h : p.InputFails c f) : p.Refuses c f ∨ ((∃ v, f = Violation.fault v) ∧ ¬ p.Fits c) := by
  cases h with
  | source h =>
    obtain ⟨received, rfl⟩ := Schema.ofSource_eq_error hm.input h
    refine .inl ⟨⟨_, _, rfl⟩, fun hd => ?_⟩
    obtain ⟨parts, s, hs, -⟩ := hd.input
    rw [hs] at h
    cases h
  | split hs h =>
    refine .inr ⟨⟨_, rfl⟩, fun hfits => ?_⟩
    obtain ⟨parts, hparts, -⟩ := hfits _ hs
    rw [h] at hparts
    cases hparts
  | kind hp hf hk location =>
    refine .inr ⟨⟨_, rfl⟩, fun hfits => ?_⟩
    obtain ⟨s, hs, hsplit⟩ := hp
    obtain ⟨parts', hparts', hall⟩ := hfits s hs
    obtain rfl := Except.ok.inj (hsplit.symm.trans hparts')
    exact hk (hall _ hf)
  | parameter hp hf hk h =>
    obtain ⟨a, ha⟩ := exists_type_of_text ((isFilled_shown hb hp).2 _ hf) hk
    exact .inl (refuses_of_render hb hm hp
      (List.mem_append_left _ (List.mem_map_of_mem hf)) ha h)
  | body hbody hp h =>
    obtain ⟨a, ha⟩ := exists_type_of_body hb hp hbody
    refine .inl (refuses_of_render hb hm hp (List.mem_append_right _ ?_) ha h)
    rw [if_pos hbody]
    exact .head _

theorem OutputFails.refuses (hb : p.IsWellBuilt c) (hm : p.MeetsRefusals c) {f : Fault}
    (h : p.OutputFails c f) : p.Refuses c f := by
  cases h with
  | source h =>
    obtain ⟨received, rfl⟩ := Schema.ofSource_eq_error hm.output h
    refine ⟨⟨_, _, rfl⟩, fun hd => ?_⟩
    obtain ⟨envelope, s, hs, -⟩ := hd.output
    rw [hs] at h
    cases h
  | envelope hs h =>
    obtain ⟨envelope, he⟩ := Schema.exists_envelope
      (Schema.isFilled_ofSource (fun given hg => hb.filled given (.inr hg)) hs)
      (Schema.makesField_ofSource hb.output hs)
    rw [h] at he
    cases he
  | answer he h =>
    rcases Traced.outcome_bind_eq_error.mp h with h | ⟨e, he', h⟩
    · exact refuses_of_fragmentFor hm (.output he) h
    · -- the schema was found, and what it brings along is inlined without fault
      obtain ⟨definitions, hbrings⟩ :=
        hm.outputBrings _ e he (Catalog.fragmentFor_eq_ok.mp he')
      rw [inlined_of_brings hbrings] at h
      cases h

theorem isDescribed_of_ok (hb : p.IsWellBuilt c) {o : Operation}
    (h : (p.operation c).outcome = .ok o) : p.IsDescribed c := by
  obtain ⟨_, hinputs, h⟩ := Traced.outcome_bind_eq_ok.mp (Traced.outcome_about_eq_ok.mp h)
  obtain ⟨_, hresponses, -⟩ := Traced.outcome_bind_eq_ok.mp h
  obtain ⟨parts, hp, hcarried, hbody⟩ := rendered_of_inputs hinputs
  obtain ⟨s, hs, hresponses⟩ := Traced.outcome_bind_eq_ok.mp hresponses
  obtain ⟨envelope, he, hresponses⟩ := Traced.outcome_bind_eq_ok.mp hresponses
  obtain ⟨success, hsuccess, -⟩ := Traced.outcome_bind_eq_ok.mp hresponses
  refine ⟨⟨parts, hp⟩, ⟨envelope, s, hs, he⟩, fun c' side a ha => ?_⟩
  cases ha with
  | @input _ shown _ hp' hmem ha =>
    obtain rfl := hp.unique hp'
    obtain ⟨j, hj⟩ : ∃ j, (shown.render (p.fieldCatalog c) .input).outcome = .ok j := by
      rcases List.mem_append.mp hmem with hfield | hrest
      · obtain ⟨f, hf, rfl⟩ := List.mem_map.mp hfield
        exact hcarried f hf
      · split at hrest
        · rename_i hbrings
          exact List.mem_singleton.mp hrest ▸ hbody hbrings
        · cases hrest
    exact Schema.exists_fragment_of_render ha (fun v => hb.defaults parts _ v hp hmem) hj
  | output he' =>
    obtain ⟨s', hs', he'⟩ := he'
    obtain rfl := Except.ok.inj (Eq.trans (Eq.symm hs) hs')
    obtain rfl := Except.ok.inj (Eq.trans (Eq.symm he) he')
    obtain ⟨e, he, -⟩ := Traced.outcome_bind_eq_ok.mp hsuccess
    exact ⟨e, Catalog.fragmentFor_eq_ok.mp he⟩

end Procedure

/-- An operation ends by the contract.  Where what a procedure has been given by hand is complete,
and nothing but a refusal is met at a type, it is documented if all that is asked for is there.
Otherwise it ends with a violation of the contract that names the procedure; and if the input fits
the path and its parameters are texts, it says that something is no schema, exactly where something
is missing. -/
theorem operation_ends_by_contract {c : Catalog} {p : Procedure} (hb : p.IsWellBuilt c)
    (hm : p.MeetsRefusals c) :
    ((∃ o, (p.operation c).outcome = .ok o) ∧ p.IsDescribed c) ∨
    ∃ v, (p.operation c).outcome = .error (.violation v (some p.name)) ∧
      v.rule.family = .contract ∧
      (p.Fits c → v.rule = .schemaGiven ∧ ¬ p.IsDescribed c) := by
  cases h : (p.operation c).outcome with
  | ok o => exact .inl ⟨⟨o, rfl⟩, Procedure.isDescribed_of_ok hb h⟩
  | error f =>
    right
    obtain ⟨g, rfl, hends⟩ := Procedure.operation_eq_fault h
    have hcases : p.Refuses c g ∨ ((∃ v, g = Violation.fault v) ∧ ¬ p.Fits c) := by
      rcases hends with hends | hends
      · exact hends.refuses hb hm
      · exact .inl (hends.refuses hb hm)
    obtain ⟨v, rfl⟩ : ∃ v, g = Violation.fault v := by
      rcases hcases with ⟨⟨role, received, hg⟩, -⟩ | ⟨hg, -⟩
      · exact ⟨_, hg⟩
      · exact hg
    refine ⟨v, rfl, ?_, fun hfits => ?_⟩
    · obtain ⟨steps, -, ⟨w, hw, heq, -⟩ | ⟨hnone, -⟩⟩ := Procedure.operation_eq_error h
      · cases heq
        exact hw
      · cases hnone
    · rcases hcases with ⟨⟨role, received, hv⟩, hnot⟩ | ⟨-, hnot⟩
      · cases hv
        exact ⟨rfl, hnot⟩
      · exact absurd hfits hnot

/-! ## A body in which something cannot be described -/

namespace Procedure

def topic : Schema := .withDefault (.text {} none) (some (.plain (.str "all")))

def handlers : Schema := .other { type := some (.container .list (.plain .callable)) } none

/-- A procedure whose body has functions in it. -/
def subscription : Procedure where
  name := "subscribe"
  method := .post
  path := "/topics/{topic}"
  input := some (.schema (.ofFields {} [("topic", topic), ("handlers", handlers)]))
  output := .schema (.text {} none)

def subscriptionParts : Partition where
  path := .ofFields {} [("topic", topic)]
  rest := .ofFields {} [("handlers", handlers)]

/-- What is found by computing, all at once: the placeholders, and what is shown of the parts. -/
theorem computed_subscription :
    Template.placeholders "/topics/{topic}" = ["topic"] ∧
    (subscriptionParts.rest.isFilled = true ∧ subscriptionParts.rest.isMakeable = true) ∧
    (subscriptionParts.rest.shown {} .input =
        .error (Violation.notASchema "object" "ModelMetaclass").fault ∧
      topic.remarked {} .input = .ok [("type", .str "string"), ("default", .str "all")]) ∧
    (Catalog.fragment {} .input (Schema.leafType {} .str)).toOption.isSome = true ∧
    bringsNothing (subscription.output.successFragment (subscription.heedInput {})) = true := by
  decide +kernel

theorem partition_subscription :
    (Schema.ofFields {} [("topic", topic), ("handlers", handlers)]).partition "/topics/{topic}" =
      .ok subscriptionParts := by
  have hnames := computed_subscription.1
  simp only [Schema.ofFields, Schema.partition, Template.placeholdersIn, hnames]
  rfl

theorem splits_subscription {parts : Partition} :
    subscription.Splits {} parts ↔ parts = subscriptionParts := by
  constructor
  · rintro ⟨s, hs, hp⟩
    cases hs
    exact Except.ok.inj (hp.symm.trans partition_subscription)
  · rintro rfl
    exact ⟨_, rfl, partition_subscription⟩

theorem shown_subscription :
    subscription.shown subscriptionParts = [topic, subscriptionParts.rest] := rfl

theorem isWellBuilt_subscription : subscription.IsWellBuilt {} where
  filled s hs := by
    rcases hs with hs | hs
    · cases hs
      rfl
    · cases hs
      rfl
  body parts _ hp := by
    obtain rfl := splits_subscription.mp hp
    exact computed_subscription.2.1.2
  output s hs := by
    cases hs
    rfl
  defaults parts s v hp hs hv := by
    obtain rfl := splits_subscription.mp hp
    rw [shown_subscription] at hs
    rcases List.mem_cons.mp hs with rfl | hs
    · obtain rfl : v = .plain (.str "all") := List.mem_singleton.mp hv
      exact ⟨_, Catalog.data_plain _ _⟩
    · obtain rfl := List.mem_singleton.mp hs
      cases hv

theorem shown_subscription_rest : subscriptionParts.rest.shown {} .input =
    .error (Violation.notASchema "object" "ModelMetaclass").fault :=
  computed_subscription.2.2.1.1

theorem bringsNothing_subscription :
    bringsNothing (subscription.output.successFragment (subscription.heedInput {})) = true :=
  computed_subscription.2.2.2.2

theorem remarked_topic : topic.remarked {} .input =
    .ok [("type", .str "string"), ("default", .str "all")] :=
  computed_subscription.2.2.1.2

theorem meetsRefusals_subscription : subscription.MeetsRefusals {} where
  input := rfl
  output := rfl
  refuses c' side a h ha hf := by
    cases ha with
    | input hp hs ha =>
      obtain rfl := splits_subscription.mp hp
      rw [shown_subscription] at hs
      rcases List.mem_cons.mp hs with rfl | hs
      · cases ha
        have hisSome := computed_subscription.2.2.2.1
        rw [show Catalog.fragment {} .input (Schema.leafType {} .str) = .error h from hf] at hisSome
        cases hisSome
      · obtain rfl := List.mem_singleton.mp hs
        have hfault := shown_subscription_rest
        rw [Schema.shown_of_not_wrapper (s := subscriptionParts.rest) rfl ha] at hfault
        obtain ⟨h', hf', heq⟩ := Catalog.fragmentFor_eq_error.mp hfault
        obtain rfl := Except.error.inj (hf.symm.trans hf')
        exact Hindrance.isRefusal_of_fault heq.symm
    | output he =>
      obtain ⟨e, -, hfound, -⟩ := inlined_of_bringsNothing bringsNothing_subscription
      rw [successFragment_of_encloses he, Catalog.fragmentFor_eq_ok, hf] at hfound
      cases hfound
  inputBrings parts s e hp hs he := by
    obtain rfl := splits_subscription.mp hp
    rw [shown_subscription] at hs
    rcases List.mem_cons.mp hs with rfl | hs
    · obtain rfl := Except.ok.inj (remarked_topic.symm.trans he)
      exact ⟨[], .inl ⟨by decide, rfl⟩, by simp⟩
    · obtain rfl := List.mem_singleton.mp hs
      rw [show subscription.fieldCatalog {} = {} from rfl, Schema.remarked,
        shown_subscription_rest] at he
      cases he
  outputBrings envelope e he hfound := by
    have hnone := bringsNothing_subscription
    rw [successFragment_of_encloses he, Catalog.fragmentFor_eq_ok.mpr hfound, bringsNothing,
      Bool.not_eq_true', Entries.has] at hnone
    exact ⟨[], .inl ⟨by simpa using hnone, rfl⟩, by simp⟩

theorem fits_subscription : subscription.Fits {} := by
  intro s hs
  cases hs
  refine ⟨subscriptionParts, partition_subscription, fun f hf => ?_⟩
  obtain rfl : f = ("topic", topic) := List.mem_singleton.mp hf
  rfl

end Procedure

/-- Functions in a body are refused: the error says so, and names the procedure. -/
theorem operation_ends_by_contract_subscription :
    Procedure.subscription.IsWellBuilt {} ∧ Procedure.subscription.MeetsRefusals {} ∧
      Procedure.subscription.Fits {} ∧ ∃ v, (Procedure.subscription.operation {}).outcome =
        .error (.violation v (some "subscribe")) ∧ v.rule = .schemaGiven := by
  refine ⟨Procedure.isWellBuilt_subscription, Procedure.meetsRefusals_subscription,
    Procedure.fits_subscription, ?_⟩
  rcases operation_ends_by_contract Procedure.isWellBuilt_subscription
    Procedure.meetsRefusals_subscription with ⟨-, hd⟩ | ⟨v, hv, -, hrule⟩
  · obtain ⟨a, ha⟩ : ∃ a, Procedure.subscriptionParts.rest.type = .ok a :=
      Schema.exists_type _ Procedure.computed_subscription.2.1.1
        Procedure.computed_subscription.2.1.2
    obtain ⟨e, he⟩ := hd.types _ _ _ (.input (Procedure.splits_subscription.mpr rfl)
      (List.mem_cons_of_mem _ (List.mem_singleton_self _)) ha)
    have hshown := Procedure.shown_subscription_rest
    rw [Schema.shown_of_not_wrapper rfl ha] at hshown
    obtain ⟨h, hf, -⟩ := Catalog.fragmentFor_eq_error.mp hshown
    cases hf.symm.trans he
  · exact ⟨v, hv, (hrule Procedure.fits_subscription).1⟩

/-! ## Hindrances that nothing is told of -/

theorem Hindrance.report?_fault {h : Hindrance} (hr : h.isRefusal = false) (role : String)
    (a : TypeExpr) : (h.fault role a).report? = none := by
  rcases h with stop | obstacle
  · cases stop <;> first | rfl | cases hr
  · cases obstacle <;> first | rfl | cases hr

theorem Fault.inProcedure_eq {f : Fault} (h : f.report? = none) (name : String) :
    f.inProcedure name = f := by
  cases f with
  | violation v procedure => cases procedure <;> cases h
  | _ => rfl

theorem Procedure.operation_eq_of_successFragment {c : Catalog} {p : Procedure} {f : Fault}
    {r : Option Body × List Parameter} (hi : (p.inputs c).outcome = .ok r)
    (h : p.output.successFragment (p.heedInput c) = .error f) (hnone : f.report? = none) :
    (p.operation c).outcome = .error f := by
  refine Traced.outcome_about_eq_error.mpr ⟨f, ?_, (Fault.inProcedure_eq hnone p.name).symm⟩
  refine Traced.outcome_bind_eq_error.mpr (.inr ⟨r, hi, ?_⟩)
  exact Traced.outcome_bind_eq_error.mpr (.inl (Source.responses_eq_error h))

/-- A hindrance at the envelope that is no refusal goes through as it is: no violation tells of it,
and nothing names the procedure. -/
theorem Procedure.operation_lets_through {c : Catalog} {p : Procedure} {envelope : Record TypeExpr}
    {r : Option Body × List Parameter} {h : Hindrance} (hi : (p.inputs c).outcome = .ok r)
    (he : p.Encloses c envelope)
    (hf : (p.answerCatalog c).fragment .output (.record envelope) = .error h)
    (hr : h.isRefusal = false) :
    (p.operation c).outcome = .error (h.fault envelopeName (.record envelope)) ∧
      (h.fault envelopeName (.record envelope)).report? = none := by
  have hnone := Hindrance.report?_fault hr envelopeName (.record envelope)
  refine ⟨operation_eq_of_successFragment hi ?_ hnone, hnone⟩
  rw [successFragment_of_encloses he]
  exact Catalog.fragmentFor_eq_error.mpr ⟨h, hf, rfl⟩

namespace Procedure

/-- A procedure that gives an object which is put together around a type of which nothing is
known. -/
def inspection : Procedure where
  name := "inspect"
  method := .get
  path := "/state"
  output := .schema (.ofFields {} [("state", .other { type := some (.plain .sealed) } none)])

theorem isWellBuilt_inspection : inspection.IsWellBuilt {} where
  filled s hs := by
    rcases hs with hs | hs
    · cases hs
      rfl
    · cases hs
      rfl
  body parts hb := by cases hb
  output s hs := by
    cases hs
    decide +kernel
  defaults parts s v hp hs hv := by
    obtain ⟨_, hgiven, hp⟩ := hp
    cases hgiven
    obtain ⟨f, hf, rfl⟩ := List.mem_map.mp ((List.mem_append.mp hs).resolve_right List.not_mem_nil)
    exact absurd (Schema.mem_fields_of_partition hp (List.mem_append.mp hf)) List.not_mem_nil

end Procedure

/-- Nothing tells of a type without schema where it stands in an object that is put together. -/
theorem operation_of_sealed_answer :
    Procedure.inspection.IsWellBuilt {} ∧
      (Procedure.inspection.operation {}).outcome = .error .unsupportedType ∧
      Fault.unsupportedType.report? = none := by
  have hpath : Template.placeholders "/state" = [] := by decide +kernel
  have hfragment : Procedure.inspection.output.successFragment {} = .error .unsupportedType := by
    decide +kernel
  exact ⟨Procedure.isWellBuilt_inspection, Procedure.operation_eq_of_successFragment
    (Procedure.inputs_of_inputless rfl hpath) hfragment rfl, rfl⟩

end Procedoc
