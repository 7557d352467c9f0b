import Procedoc.Proofs.Operation.Refusing
import Procedoc.Proofs.Rendering.Unremarked
import Procedoc.Proofs.Template.Placeholders

/-! # Which error an input meets

Taking an input apart goes wrong in four ways, each of which hides those after it: what is offered
is no schema, it is no object, the template names what is no field, or a field that is to be a
parameter is no text.  `Source.Errs` lists them, over the sequence of fields that are to be
parameters.  For an input without body these are all fields, those in the path first
(`inputPlacings`); for one with a body only those in the path (`pathPlacings`).
`input_errors_exact` says that an input meets just the errors of this list.
-/

namespace Procedoc
set_option autoImplicit false

/-! ## The first of a list -/

/-- Whether something is the first of a list that lacks a property. -/
def FirstWithout {α : Type} (P : α → Prop) (l : List α) (a : α) : Prop :=
  ∃ before after, l = before ++ a :: after ∧ (∀ b ∈ before, P b) ∧ ¬ P a

section FirstWithout
variable {α : Type} {P : α → Prop} {l m : List α} {a b : α}

theorem not_firstWithout_nil : ¬ FirstWithout P [] a := by
  rintro ⟨before, after, h, -⟩
  cases before <;> cases h

theorem firstWithout_cons :
    FirstWithout P (b :: l) a ↔ ¬ P b ∧ a = b ∨ P b ∧ FirstWithout P l a := by
  constructor
  · rintro ⟨before, after, h, hbefore, ha⟩
    cases before with
    | nil =>
      cases h
      exact .inl ⟨ha, rfl⟩
    | cons b' before =>
      cases h
      obtain ⟨hb, hbefore⟩ := List.forall_mem_cons.mp hbefore
      exact .inr ⟨hb, before, after, rfl, hbefore, ha⟩
  · rintro (⟨hb, rfl⟩ | ⟨hb, before, after, rfl, hbefore, ha⟩)
    · exact ⟨[], l, rfl, nofun, hb⟩
    · exact ⟨b :: before, after, rfl, List.forall_mem_cons.mpr ⟨hb, hbefore⟩, ha⟩

theorem firstWithout_append : FirstWithout P (l ++ m) a ↔
    FirstWithout P l a ∨ (∀ b ∈ l, P b) ∧ FirstWithout P m a := by
  induction l with
  | nil => simp [not_firstWithout_nil]
  | cons b rest ih =>
    rw [List.cons_append, firstWithout_cons, firstWithout_cons, ih, List.forall_mem_cons]
    tauto

theorem forall_of_not_firstWithout (h : ∀ a, ¬ FirstWithout P l a) : ∀ b ∈ l, P b := by
  induction l with
  | nil => exact nofun
  | cons b rest ih =>
    have hb : P b := by
      by_contra hb
      exact h b (firstWithout_cons.mpr (.inl ⟨hb, rfl⟩))
    exact List.forall_mem_cons.mpr
      ⟨hb, ih fun a ha => h a (firstWithout_cons.mpr (.inr ⟨hb, ha⟩))⟩

theorem FirstWithout.not_forall (h : FirstWithout P l a) : ¬ ∀ b ∈ l, P b := by
  obtain ⟨before, after, rfl, -, ha⟩ := h
  exact fun hall => ha (hall a (by simp))

end FirstWithout

/-! ## Fields with their places -/

/-- A field and the place that it is to have as a parameter. -/
structure Placing where
  location : Location
  name : String
  schema : Schema

/-- Whether the field is a text, its wrappers apart. -/
def Placing.IsText (d : Placing) : Prop := d.schema.base.kind = .string

instance (d : Placing) : Decidable d.IsText := inferInstanceAs (Decidable (_ = _))

/-- What is said of a field that is no text. -/
def Placing.refusal (d : Placing) : Fault :=
  (Violation.stringFieldRequired d.name d.location.name d.schema.base.kind.name).fault

/-- The fields, all in one place. -/
def placings (location : Location) (fields : Entries Schema) : List Placing :=
  fields.map fun f => ⟨location, f.1, f.2⟩

@[simp] theorem placings_cons (location : Location) (f : String × Schema)
    (rest : Entries Schema) : placings location (f :: rest) =
      ⟨location, f.1, f.2⟩ :: placings location rest := rfl

/-- The named fields, each once and in the order in which the names come first. -/
def namedFields (fields : Entries Schema) (names : List String) : Entries Schema :=
  names.eraseDups.filterMap fun n => (Entries.get? fields n).map fun s => (n, s)

/-- The parameters of an input with a body: the named fields. -/
def pathPlacings (fields : Entries Schema) (names : List String) : List Placing :=
  placings .path (namedFields fields names)

/-- The parameters of an input without body: the named fields, then the others in their order. -/
def inputPlacings (fields : Entries Schema) (names : List String) : List Placing :=
  pathPlacings fields names ++ placings .query (fields.filter fun f => f.1 ∉ names)

theorem pickFields_eq_namedFields {fields : Entries Schema} {names : List String}
    (h : ∀ n ∈ names, n ∈ Entries.keys fields) :
    pickFields fields names = namedFields fields names := by
  rw [namedFields, ← keys_pickFields h, Entries.keys, List.filterMap_map]
  have hself : ∀ p ∈ pickFields fields names, ((fun n =>
      (Entries.get? fields n).map fun s => (n, s)) ∘ Prod.fst) p = some p := by
    intro p hp
    simp [get?_of_mem_pickFields hp]
  rw [List.filterMap_congr hself, List.filterMap_some]

theorem withoutAll_eq_filter (fields : Entries Schema) (names : List String) :
    Entries.withoutAll fields names = fields.filter fun f => f.1 ∉ names := by
  simp [Entries.withoutAll]

/-! ## Splitting an input -/

namespace Schema
variable {c : Catalog} {s : Schema} {template : String}

theorem fields_of_partition {parts : Partition} (h : s.partition template = .ok parts) :
    s.kind = .object ∧ (∀ n ∈ Template.placeholders template, n ∈ s.keys) ∧
      parts.path.fields = namedFields s.fields (Template.placeholders template) ∧
      parts.rest.fields = s.fields.filter fun f => f.1 ∉ Template.placeholders template := by
  obtain ⟨head, fields, o, rfl, hnamed, hpath, hrest⟩ := partition_eq_ok h
  rw [without_object, Except.ok.injEq] at hrest
  refine ⟨rfl, hnamed, ?_, ?_⟩
  · rw [hpath]
    exact pickFields_eq_namedFields hnamed
  · rw [← hrest]
    exact withoutAll_eq_filter fields _

/-- What is split is an object whose fields the template names; else there is one reason why not. -/
theorem partition_eq_error {v : Violation} : s.partition template = .error v ↔
    s.kind ≠ .object ∧ v = .objectKindRequired "input" s.kind.name ∨
      s.kind = .object ∧ ∃ name,
        FirstWithout (· ∈ s.keys) (Template.placeholders template) name ∧
          v = .unknownPathField name template := by
  cases s with
  | text | other => simp [partition, kind, eq_comm]
  | wrapped w => cases w <;> simp [partition, kind, Wrapper.kind, eq_comm]
  | object head fields o =>
    rw [partition_eq_error_iff]
    constructor
    · rintro ⟨before, name, after, hnames, hbefore, hnot, rfl⟩
      exact .inr ⟨rfl, name, ⟨before, after, hnames, hbefore, hnot⟩, rfl⟩
    · rintro (⟨hk, -⟩ | ⟨-, name, ⟨before, after, hnames, hbefore, hnot⟩, rfl⟩)
      · exact absurd rfl hk
      · exact ⟨before, name, after, hnames, hbefore, hnot, rfl⟩

end Schema

/-! ## Parameters -/

section Parameters
variable {c c' : Catalog} {location : Location} {fields : Entries Schema}

/-- Whether the texts among some fields are rendered. -/
def RendersTexts (c : Catalog) (fields : Entries Schema) : Prop :=
  ∀ f ∈ fields, f.2.base.kind = .string → ∃ j, (f.2.render c .input).outcome = .ok j

theorem Schema.parameter_of_not_text {s : Schema} (hk : s.base.kind ≠ .string) (name : String) :
    (s.parameter c location name).outcome =
      .error (Placing.refusal ⟨location, name, s⟩) := by
  rw [parameter, if_neg hk]
  rfl

/-- Where texts are rendered, the first field that is none is refused, and nothing else is. -/
theorem parametersOf_eq_error_iff (h : RendersTexts c fields) {f : Fault} :
    (parametersOf c location fields).outcome = .error f ↔
      ∃ d, FirstWithout Placing.IsText (placings location fields) d ∧ f = d.refusal := by
  induction fields with
  | nil =>
    refine ⟨nofun, ?_⟩
    rintro ⟨d, hd, -⟩
    exact absurd hd not_firstWithout_nil
  | cons p rest ih =>
    obtain ⟨hp, hrest⟩ := List.forall_mem_cons.mp h
    rw [parametersOf, Traced.outcome_bind_eq_error, placings_cons]
    simp only [firstWithout_cons]
    by_cases hk : p.2.base.kind = .string
    · obtain ⟨j, hj⟩ := hp hk
      have htext : Placing.IsText ⟨location, p.1, p.2⟩ := hk
      simp only [Schema.parameter_of_text hk hj location p.1, Traced.outcome_bind_eq_error,
        Traced.outcome_pure, htext, not_true_eq_false, false_and, true_and, false_or]
      simpa using ih hrest
    · have hnot : ¬ Placing.IsText ⟨location, p.1, p.2⟩ := hk
      simp only [Schema.parameter_of_not_text hk, hnot, not_false_eq_true, true_and, false_and,
        or_false, exists_eq_left]
      simp [eq_comm]

theorem parametersOf_congr (h : ∀ f ∈ fields, f.2.base.kind = .string →
    f.2.render c' .input = f.2.render c .input) :
    parametersOf c' location fields = parametersOf c location fields := by
  induction fields with
  | nil => rfl
  | cons p rest ih =>
    obtain ⟨hp, hrest⟩ := List.forall_mem_cons.mp h
    have hparameter : p.2.parameter c' location p.1 = p.2.parameter c location p.1 := by
      by_cases hk : p.2.base.kind = .string
      · rw [Schema.parameter, Schema.parameter, hp hk]
      · rw [Schema.parameter, Schema.parameter, if_neg hk, if_neg hk]
    rw [parametersOf, parametersOf, hparameter, ih hrest]

end Parameters

/-! ## The errors of an input -/

namespace Source

/-- The errors of an input that is taken apart along a template, where the fields in a sequence are
to be parameters. -/
inductive Errs (c : Catalog) (input : Source) (template : String)
    (sequence : Entries Schema → List String → List Placing) : Fault → Prop where
  /-- What is offered is no schema. -/
  | rejected {f : Fault} (h : Schema.ofSource c "input" input = .error f) :
      Errs c input template sequence f
  /-- It is a schema and no object; a wrapper around an object is none. -/
  | kind {s : Schema} (hs : Schema.ofSource c "input" input = .ok s) (hk : s.kind ≠ .object) :
      Errs c input template sequence (Violation.objectKindRequired "input" s.kind.name).fault
  /-- It is an object, and the name is the leftmost placeholder that is no key of it. -/
  | unknown {s : Schema} {name : String} (hs : Schema.ofSource c "input" input = .ok s)
      (hk : s.kind = .object)
      (h : FirstWithout (· ∈ s.keys) (Template.placeholders template) name) :
      Errs c input template sequence (Violation.unknownPathField name template).fault
  /-- All placeholders are keys, and the field is the first of the sequence that is no text. -/
  | unfit {s : Schema} {d : Placing} (hs : Schema.ofSource c "input" input = .ok s)
      (hk : s.kind = .object) (hnamed : ∀ n ∈ Template.placeholders template, n ∈ s.keys)
      (h : FirstWithout Placing.IsText (sequence s.fields (Template.placeholders template)) d) :
      Errs c input template sequence d.refusal

/-- Whether an input is an object with all placeholders among its keys and nothing but texts in the
sequence. -/
def Suits (c : Catalog) (input : Source) (template : String)
    (sequence : Entries Schema → List String → List Placing) : Prop :=
  ∃ s, Schema.ofSource c "input" input = .ok s ∧ s.kind = .object ∧
    (∀ n ∈ Template.placeholders template, n ∈ s.keys) ∧
    ∀ d ∈ sequence s.fields (Template.placeholders template), d.IsText

variable {c : Catalog} {input : Source} {template : String}
  {sequence : Entries Schema → List String → List Placing}

theorem not_errs_of_suits (h : input.Suits c template sequence) (f : Fault) :
    ¬ input.Errs c template sequence f := by
  obtain ⟨s, hs, hobject, hnamed, htexts⟩ := h
  intro herrs
  cases herrs with
  | rejected h =>
    rw [hs] at h
    cases h
  | kind hs' hk =>
    obtain rfl := Except.ok.inj (hs.symm.trans hs')
    exact hk hobject
  | unknown hs' _ h =>
    obtain rfl := Except.ok.inj (hs.symm.trans hs')
    exact h.not_forall hnamed
  | unfit hs' _ _ h =>
    obtain rfl := Except.ok.inj (hs.symm.trans hs')
    exact h.not_forall htexts

theorem suits_of_not_errs (h : ∀ f, ¬ input.Errs c template sequence f) :
    input.Suits c template sequence := by
  cases hs : Schema.ofSource c "input" input with
  | error f => exact absurd (.rejected hs) (h f)
  | ok s =>
    have hobject : s.kind = .object := by
      by_contra hk
      exact h _ (.kind hs hk)
    have hnamed : ∀ n ∈ Template.placeholders template, n ∈ s.keys :=
      forall_of_not_firstWithout fun _ hn => h _ (.unknown hs hobject hn)
    exact ⟨s, hs, hobject, hnamed,
      forall_of_not_firstWithout fun _ hd => h _ (.unfit hs hobject hnamed hd)⟩

/-- A computation that takes an input apart and meets the errors of the list and no others. -/
structure Meets (c : Catalog) (input : Source) (template : String)
    (sequence : Entries Schema → List String → List Placing) {α : Type} (x : Traced α) : Prop where
  error_iff : ∀ f, x.outcome = .error f ↔ input.Errs c template sequence f
  /-- It succeeds for all other inputs. -/
  ok_iff : (∃ a, x.outcome = .ok a) ↔ input.Suits c template sequence
  /-- An input that nothing but a part without schema stands against is told of as no schema exactly
  if it is taken for none. -/
  rejected_iff : input.isTaken c = true →
    ((∃ received, x.outcome = .error (Violation.notASchema "input" received).fault) ↔
      ∀ s, Schema.ofSource c "input" input ≠ .ok s)

theorem errs_notASchema_iff (ht : input.isTaken c = true) :
    (∃ received, input.Errs c template sequence (Violation.notASchema "input" received).fault) ↔
      ∀ s, Schema.ofSource c "input" input ≠ .ok s := by
  constructor
  · rintro ⟨received, herrs⟩ s hs
    generalize hf : (Violation.notASchema "input" received).fault = f at herrs
    cases herrs with
    | rejected h =>
      rw [hs] at h
      cases h
    | kind | unknown | unfit => cases hf
  · intro hnone
    cases hs : Schema.ofSource c "input" input with
    | ok s => exact absurd hs (hnone s)
    | error f =>
      obtain ⟨received, rfl⟩ := Schema.ofSource_eq_error ht hs
      exact ⟨received, .rejected hs⟩

theorem meets_of_error_iff {α : Type} {x : Traced α}
    (h : ∀ f, x.outcome = .error f ↔ input.Errs c template sequence f) :
    input.Meets c template sequence x where
  error_iff := h
  ok_iff := by
    constructor
    · rintro ⟨a, ha⟩
      refine suits_of_not_errs fun f hf => ?_
      rw [(h f).mpr hf] at ha
      cases ha
    · intro hsuits
      cases hx : x.outcome with
      | ok a => exact ⟨a, rfl⟩
      | error f => exact absurd ((h f).mp hx) (not_errs_of_suits hsuits f)
  rejected_iff ht := by
    simp only [h]
    exact errs_notASchema_iff ht

/-- Whatever is made of the parts of an input, errors come in the order of the list. -/
theorem meets_of_next {α : Type} {next : Partition → Traced α}
    (hnext : ∀ s parts, Schema.ofSource c "input" input = .ok s →
      s.partition template = .ok parts → ∀ f, (next parts).outcome = .error f ↔
        ∃ d, FirstWithout Placing.IsText
          (sequence s.fields (Template.placeholders template)) d ∧ f = d.refusal) :
    input.Meets c template sequence (do
      let parts ← (← input.asInput c).partitioned template
      next parts) := by
  refine meets_of_error_iff fun f => ⟨?_, ?_⟩
  · intro h
    rcases Traced.outcome_bind_eq_error.mp h with h | ⟨s, hs, h⟩
    · exact .rejected h
    · rcases Traced.outcome_bind_eq_error.mp h with h | ⟨parts, hparts, h⟩
      · obtain ⟨v, hv, rfl⟩ := Schema.partitioned_eq_error.mp h
        rcases Schema.partition_eq_error.mp hv with ⟨hk, rfl⟩ | ⟨hk, name, hname, rfl⟩
        · exact .kind hs hk
        · exact .unknown hs hk hname
      · have hp := Schema.partitioned_eq_ok.mp hparts
        obtain ⟨hk, hnamed, -, -⟩ := Schema.fields_of_partition hp
        obtain ⟨d, hd, rfl⟩ := (hnext s parts hs hp f).mp h
        exact .unfit hs hk hnamed hd
  · intro h
    have split {s : Schema} (hs : Schema.ofSource c "input" input = .ok s) {v : Violation}
        (hv : s.partition template = .error v) : (do
          let parts ← (← input.asInput c).partitioned template
          next parts).outcome = .error v.fault :=
      Traced.outcome_bind_eq_error.mpr (.inr ⟨s, hs, Traced.outcome_bind_eq_error.mpr
        (.inl (Schema.partitioned_eq_error.mpr ⟨v, hv, rfl⟩))⟩)
    cases h with
    | rejected h => exact Traced.outcome_bind_eq_error.mpr (.inl h)
    | kind hs hk => exact split hs (Schema.partition_eq_error.mpr (.inl ⟨hk, rfl⟩))
    | unknown hs hk h => exact split hs (Schema.partition_eq_error.mpr (.inr ⟨hk, _, h, rfl⟩))
    | @unfit s d hs hk hnamed h =>
      obtain ⟨head, fields, o, rfl⟩ := Schema.exists_object hk
      have hp := Schema.partition_object hnamed head o
      refine Traced.outcome_bind_eq_error.mpr (.inr ⟨_, hs, ?_⟩)
      exact Traced.outcome_bind_eq_error.mpr (.inr ⟨_, Schema.partitioned_eq_ok.mpr hp,
        (hnext _ _ hs hp _).mpr ⟨d, h, rfl⟩⟩)

/-- Whether the texts among the fields of an input are rendered. -/
def RendersFields (c : Catalog) (input : Source) : Prop :=
  ∀ s, Schema.ofSource c "input" input = .ok s → RendersTexts c s.fields

/-- Whether what a template leaves of an input is rendered. -/
def RendersRest (c : Catalog) (input : Source) (template : String) : Prop :=
  ∀ s parts, Schema.ofSource c "input" input = .ok s → s.partition template = .ok parts →
    ∃ j, (parts.rest.render (c.heedSource input) .input).outcome = .ok j

section Parts
variable {s : Schema} {parts : Partition}

theorem parameters_path (hp : s.partition template = .ok parts) :
    parts.path.parameters c .path =
      parametersOf c .path (namedFields s.fields (Template.placeholders template)) := by
  rw [Schema.parameters_of_object (Schema.kind_of_partition hp).1,
    (Schema.fields_of_partition hp).2.2.1]

theorem parameters_rest (hp : s.partition template = .ok parts) :
    parts.rest.parameters c .query =
      parametersOf c .query (s.fields.filter fun f => f.1 ∉ Template.placeholders template) := by
  rw [Schema.parameters_of_object (Schema.kind_of_partition hp).2,
    (Schema.fields_of_partition hp).2.2.2]

theorem rendersTexts_path (h : RendersTexts c s.fields) (names : List String) :
    RendersTexts c (namedFields s.fields names) := by
  intro f hf
  obtain ⟨n, -, hn⟩ := List.mem_filterMap.mp hf
  obtain ⟨s', hs', rfl⟩ := Option.map_eq_some_iff.mp hn
  exact h _ (Entries.mem_of_get? hs')

/-- The parameters in the path do not depend on whether the input has been heeded. -/
theorem parameters_path_heedSource (hs : Schema.ofSource c "input" input = .ok s)
    (hp : s.partition template = .ok parts) :
    parts.path.parameters (c.heedSource input) .path = parts.path.parameters c .path := by
  rw [parameters_path hp, parameters_path hp]
  refine parametersOf_congr fun f hf hk => ?_
  obtain ⟨n, -, hn⟩ := List.mem_filterMap.mp hf
  obtain ⟨s', hs', rfl⟩ := Option.map_eq_some_iff.mp hn
  exact Schema.render_heedSource hs (Entries.mem_of_get? hs') hk .input

theorem path_eq_error_iff (h : RendersTexts c s.fields) (hp : s.partition template = .ok parts)
    {f : Fault} : (parts.path.parameters c .path).outcome = .error f ↔
      ∃ d, FirstWithout Placing.IsText
        (pathPlacings s.fields (Template.placeholders template)) d ∧ f = d.refusal := by
  rw [parameters_path hp, parametersOf_eq_error_iff (rendersTexts_path h _), pathPlacings]

theorem exists_path_iff (h : RendersTexts c s.fields) (hp : s.partition template = .ok parts) :
    (∃ qs, (parts.path.parameters c .path).outcome = .ok qs) ↔
      ∀ d ∈ pathPlacings s.fields (Template.placeholders template), d.IsText := by
  constructor
  · rintro ⟨qs, hqs⟩
    refine forall_of_not_firstWithout fun d hd => ?_
    rw [(path_eq_error_iff h hp).mpr ⟨d, hd, rfl⟩] at hqs
    cases hqs
  · intro hall
    cases hqs : (parts.path.parameters c .path).outcome with
    | ok qs => exact ⟨qs, rfl⟩
    | error f =>
      obtain ⟨d, hd, -⟩ := (path_eq_error_iff h hp).mp hqs
      exact absurd hall hd.not_forall

end Parts

/-- An input without body meets the errors over all its fields. -/
theorem meets_allParameters (h : input.RendersFields c) :
    input.Meets c template inputPlacings (input.allParameters c template) := by
  refine meets_of_next fun s parts hs hp g => ?_
  have hrest : RendersTexts c (s.fields.filter fun f => f.1 ∉ Template.placeholders template) :=
    fun f hf => h s hs f (List.mem_filter.mp hf).1
  rw [Traced.outcome_bind_eq_error, path_eq_error_iff (h s hs) hp]
  simp only [Traced.outcome_bind_eq_error, parameters_rest hp, parametersOf_eq_error_iff hrest,
    Traced.outcome_pure, reduceCtorEq, and_false, exists_false, or_false, inputPlacings,
    firstWithout_append, ← exists_path_iff (h s hs) hp]
  constructor
  · rintro (⟨d, hd, rfl⟩ | ⟨qs, hqs, d, hd, rfl⟩)
    · exact ⟨d, .inl hd, rfl⟩
    · exact ⟨d, .inr ⟨⟨qs, hqs⟩, hd⟩, rfl⟩
  · rintro ⟨d, hd | ⟨⟨qs, hqs⟩, hd⟩, rfl⟩
    · exact .inl ⟨d, hd, rfl⟩
    · exact .inr ⟨qs, hqs, d, hd, rfl⟩

/-- An input with a body meets the errors over its fields in the path. -/
theorem meets_request (h : input.RendersFields c) (hrest : input.RendersRest c template) :
    input.Meets c template pathPlacings (input.request c template) := by
  refine meets_of_next fun s parts hs hp g => ?_
  obtain ⟨j, hj⟩ := hrest s parts hs hp
  rw [Traced.outcome_bind_eq_error, parameters_path_heedSource hs hp,
    path_eq_error_iff (h s hs) hp]
  simp [Traced.outcome_bind_eq_error, hj]

theorem request_of_allParameters (hrest : input.RendersRest c template) {qs : List Parameter}
    (h : (input.allParameters c template).outcome = .ok qs) :
    ∃ r query, (input.request c template).outcome = .ok r ∧ qs = r.parameters ++ query ∧
      (∀ q ∈ r.parameters, q.location = .path) ∧ ∀ q ∈ query, q.location = .query := by
  obtain ⟨s, hs, h⟩ := Traced.outcome_bind_eq_ok.mp h
  obtain ⟨parts, hparts, h⟩ := Traced.outcome_bind_eq_ok.mp h
  obtain ⟨path, hpath, h⟩ := Traced.outcome_bind_eq_ok.mp h
  obtain ⟨query, hquery, h⟩ := Traced.outcome_bind_eq_ok.mp h
  cases h
  have hp := Schema.partitioned_eq_ok.mp hparts
  obtain ⟨j, hj⟩ := hrest s parts hs hp
  have located {fields : Entries Schema} {location : Location} {ps : List Parameter}
      (h : (parametersOf c location fields).outcome = .ok ps) :
      ∀ q ∈ ps, q.location = location := by
    intro q hq
    have hmem := List.mem_map_of_mem (f := fun q : Parameter => (q.name, q.location)) hq
    rw [(parametersOf_eq_ok h).1] at hmem
    obtain ⟨n, -, hn⟩ := List.mem_map.mp hmem
    exact (congrArg Prod.snd hn).symm
  refine ⟨⟨⟨!parts.rest.isOptional, j⟩, path⟩, query, ?_, rfl, ?_, ?_⟩
  · refine Traced.outcome_bind_eq_ok.mpr ⟨s, hs, Traced.outcome_bind_eq_ok.mpr ⟨parts, hparts, ?_⟩⟩
    refine Traced.outcome_bind_eq_ok.mpr ⟨path, ?_, Traced.outcome_bind_eq_ok.mpr ⟨j, hj, rfl⟩⟩
    rw [parameters_path_heedSource hs hp]
    exact hpath
  · exact located (parameters_path hp ▸ hpath)
  · exact located (parameters_rest hp ▸ hquery)

end Source

/-- Which error an input meets, exactly.  Where its texts are rendered, an input without body fails
just with the errors of the list over all its fields, and succeeds else.  Where what the template
leaves of it is rendered as well, an input with a body does so over its fields in the path; it
succeeds with every input of which all fields can be parameters, and then has those of them that
stand in the path. -/
theorem input_errors_exact {c : Catalog} {input : Source} {template : String}
    (htexts : input.RendersFields c) :
    input.Meets c template inputPlacings (input.allParameters c template) ∧
    (input.RendersRest c template →
      input.Meets c template pathPlacings (input.request c template) ∧
      ∀ qs, (input.allParameters c template).outcome = .ok qs →
        ∃ r query, (input.request c template).outcome = .ok r ∧ qs = r.parameters ++ query ∧
          (∀ q ∈ r.parameters, q.location = .path) ∧ ∀ q ∈ query, q.location = .query) :=
  ⟨Source.meets_allParameters htexts, fun hrest =>
    ⟨Source.meets_request htexts hrest, fun _ => Source.request_of_allParameters hrest⟩⟩

/-- The fields of an input, two of which are no texts. -/
def mixedFields : Entries Schema :=
  [("a", .text {} none), ("b", .other {} none), ("c", .optional (.other {} none)),
    ("d", .text {} none)]

/-- The fields in the path come first, in the order of the path; a body may hold what is no text. -/
theorem input_errors_exact_mixed :
    ((Source.schema (.ofFields {} mixedFields)).allParameters {} "/{d}/{c}/{d}").outcome =
      .error (Violation.stringFieldRequired "c" "path" "other").fault ∧
    ((Source.schema (.ofFields {} mixedFields)).allParameters {} "/{c}/{x}").outcome =
      .error (Violation.unknownPathField "x" "/{c}/{x}").fault ∧
    ((Source.schema (.ofFields {} mixedFields)).allParameters {} "/{d}").outcome =
      .error (Violation.stringFieldRequired "b" "query" "other").fault ∧
    ∃ r, ((Source.schema (.ofFields {} mixedFields)).request {} "/{d}").outcome = .ok r := by
  have hnames : Template.placeholders "/{d}" = ["d"] := by decide +kernel
  have htexts : (Source.schema (.ofFields {} mixedFields)).RendersFields {} := by
    rintro s ⟨⟩ f hf hk
    have htext : ∃ j, (Schema.render {} .input (.text {} none)).outcome = .ok j :=
      Schema.render_isOk rfl (by decide +kernel)
    simp only [Schema.ofFields, Schema.fields, mixedFields, List.mem_cons, List.not_mem_nil,
      or_false] at hf
    rcases hf with rfl | rfl | rfl | rfl
    · exact htext
    · cases hk
    · cases hk
    · exact htext
  have hrest : (Source.schema (.ofFields {} mixedFields)).RendersRest {} "/{d}" := by
    rintro s parts ⟨⟩ hp
    have hnamed : ∀ n ∈ Template.placeholders "/{d}", n ∈ Entries.keys mixedFields := by
      rw [hnames]
      decide
    rw [Schema.ofFields, Schema.partition_object hnamed, hnames] at hp
    cases hp
    exact Schema.render_isOk rfl (by decide +kernel)
  refine ⟨?_, ?_, ?_, ?_⟩
  · refine ((input_errors_exact htexts).1.error_iff _).mpr ?_
    refine .unfit (d := ⟨.path, "c", .optional (.other {} none)⟩) rfl rfl ?_ ?_
    · decide +kernel
    · rw [show Template.placeholders "/{d}/{c}/{d}" = ["d", "c", "d"] by decide +kernel]
      exact ⟨[⟨.path, "d", .text {} none⟩], _, rfl, by decide, by decide⟩
  · refine ((input_errors_exact htexts).1.error_iff _).mpr ?_
    have hfirst : FirstWithout (· ∈ Entries.keys mixedFields)
        (Template.placeholders "/{c}/{x}") "x" :=
      ⟨["c"], [], by decide +kernel, by decide, by decide⟩
    exact .unknown rfl rfl hfirst
  · refine ((input_errors_exact htexts).1.error_iff _).mpr ?_
    refine .unfit (d := ⟨.query, "b", .other {} none⟩) rfl rfl ?_ ?_
    · decide +kernel
    · rw [hnames]
      exact ⟨[⟨.path, "d", .text {} none⟩, ⟨.query, "a", .text {} none⟩], _, rfl,
        by decide, by decide⟩
  · refine ((input_errors_exact htexts).2 hrest).1.ok_iff.mpr ⟨_, rfl, rfl, ?_, ?_⟩
    · decide +kernel
    · rw [hnames]
      exact List.forall_mem_singleton.mpr rfl

/-- An annotation without any value is no schema, and fails without any violation. -/
theorem input_of_no_values :
    (∀ s, Schema.ofSource {} "input" (.type (.literal [])) ≠ .ok s) ∧
    (∀ qs, ((Source.type (.literal [])).allParameters {} "/m").outcome ≠ .ok qs) ∧
    ∀ v : Violation, ((Source.type (.literal [])).allParameters {} "/m").outcome ≠
      .error v.fault := by
  have hsource : Schema.ofSource {} "input" (.type (.literal [])) = .error .noValues := rfl
  have hparameters : ((Source.type (.literal [])).allParameters {} "/m").outcome =
      .error .noValues := by
    rw [Source.allParameters, Source.asInput, hsource]
    rfl
  rw [hsource, hparameters]
  exact ⟨nofun, nofun, nofun⟩

end Procedoc
