import Procedoc.Proofs.Operation.Placement

/-! # Where an operation ends

Documenting a procedure goes wrong at a source that is no schema, at the split of the input, at a
field that is to be a parameter and is no text, or where a schema is rendered.
`Procedure.InputFails` and `Procedure.OutputFails` list these ends one by one.  Every operation that
is not documented comes to one of them (`Procedure.operation_eq_fault`), and one that is documented
has rendered all that it shows of its input (`Procedure.rendered_of_inputs`).
-/

namespace Procedoc
set_option autoImplicit false

/-! ## Where computations fail -/

theorem Traced.outcome_bind_eq_error {α β : Type} {x : Traced α} {next : α → Traced β} {f : Fault} :
    (x >>= next).outcome = .error f ↔
      x.outcome = .error f ∨ ∃ a, x.outcome = .ok a ∧ (next a).outcome = .error f := by
  rw [outcome_bind]
  cases x.outcome <;> simp [bind, Except.bind]

theorem Traced.outcome_about_eq_error {α : Type} {procedure : String} {x : Traced α} {f : Fault} :
    (x.about procedure).outcome = .error f ↔
      ∃ g, x.outcome = .error g ∧ f = g.inProcedure procedure := by
  obtain ⟨events, outcome⟩ := x
  cases outcome with
  | ok a => simp [about]
  | error g =>
    unfold about
    simp only [Except.error.injEq]
    split
    · simp [eq_comm]
    · simp [eq_comm]

theorem Source.responses_eq_error {c : Catalog} {output : Source} {f : Fault}
    (h : output.successFragment c = .error f) : (output.responses c).outcome = .error f := by
  refine Traced.outcome_bind_eq_error.mpr ?_
  cases hs : Schema.ofSource c "output" output with
  | error g =>
    rw [successFragment, hs] at h
    exact .inl (congrArg Except.error (Except.error.inj h))
  | ok s =>
    refine .inr ⟨s, rfl, Traced.outcome_bind_eq_error.mpr ?_⟩
    rw [successFragment, hs] at h
    change (s.envelope >>= _) = _ at h
    cases he : s.envelope with
    | error g =>
      rw [he] at h
      exact .inl (congrArg Except.error (Except.error.inj h))
    | ok envelope =>
      rw [he] at h
      exact .inr ⟨envelope, rfl, Traced.outcome_bind_eq_error.mpr
        (.inl (Traced.outcome_bind_eq_error.mpr (.inl h)))⟩

/-! ## Parameters -/

namespace Schema
variable {c : Catalog}

theorem partitioned_eq_error {s : Schema} {template : String} {f : Fault} :
    (s.partitioned template).outcome = .error f ↔
      ∃ v, s.partition template = .error v ∧ f = v.fault := by
  unfold partitioned
  cases s.partition template with
  | ok parts => simp
  | error v => simp [Traced.refuse, eq_comm]

theorem parameter_eq_error {location : Location} {name : String} {s : Schema} {f : Fault}
    (h : (s.parameter c location name).outcome = .error f) :
    s.base.kind ≠ .string ∧
        f = (Violation.stringFieldRequired name location.name s.base.kind.name).fault ∨
      s.base.kind = .string ∧ (s.render c .input).outcome = .error f := by
  unfold parameter at h
  split at h
  · rename_i hk
    rcases Traced.outcome_bind_eq_error.mp h with h | ⟨j, -, h⟩
    · exact .inr ⟨hk, h⟩
    · cases h
  · rename_i hk
    cases h
    exact .inl ⟨hk, rfl⟩

theorem parametersOf_eq_error {location : Location} {fields : Entries Schema} {f : Fault}
    (h : (parametersOf c location fields).outcome = .error f) :
    ∃ p ∈ fields, (p.2.parameter c location p.1).outcome = .error f := by
  induction fields with
  | nil => cases h
  | cons p rest ih =>
    rcases Traced.outcome_bind_eq_error.mp h with h | ⟨q, -, h⟩
    · exact ⟨p, .head _, h⟩
    · rcases Traced.outcome_bind_eq_error.mp h with h | ⟨qs, -, h⟩
      · obtain ⟨p', hp', h⟩ := ih h
        exact ⟨p', .tail _ hp', h⟩
      · cases h

theorem rendered_of_parametersOf {location : Location} {fields : Entries Schema}
    {qs : List Parameter} (h : (parametersOf c location fields).outcome = .ok qs) :
    ∀ f ∈ fields, ∃ j, (f.2.render c .input).outcome = .ok j := by
  induction fields generalizing qs with
  | nil => exact fun f hf => absurd hf List.not_mem_nil
  | cons p rest ih =>
    obtain ⟨q, hq, h⟩ := Traced.outcome_bind_eq_ok.mp h
    obtain ⟨others, hothers, -⟩ := Traced.outcome_bind_eq_ok.mp h
    intro f hf
    rcases List.mem_cons.mp hf with rfl | hf
    · exact ⟨_, (parameter_eq_ok hq).2.1⟩
    · exact ih hothers f hf

theorem exists_object {s : Schema} (hs : s.kind = .object) :
    ∃ head fields o, s = object head fields o := by
  cases s with
  | object head fields o => exact ⟨head, fields, o, rfl⟩
  | wrapped w => cases w <;> cases hs
  | _ => cases hs

theorem parameters_of_object {s : Schema} (hs : s.kind = .object) (location : Location) :
    s.parameters c location = parametersOf c location s.fields := by
  obtain ⟨head, fields, o, rfl⟩ := exists_object hs
  rfl

theorem kind_of_partition {s : Schema} {template : String} {parts : Partition}
    (h : s.partition template = .ok parts) :
    parts.path.kind = .object ∧ parts.rest.kind = .object := by
  obtain ⟨head, fields, o, rfl, -, hpath, hrest⟩ := partition_eq_ok h
  rw [without_object, Except.ok.injEq] at hrest
  rw [hpath, ← hrest]
  exact ⟨rfl, rfl⟩

theorem mem_fields_of_partition {s : Schema} {template : String} {parts : Partition}
    (h : s.partition template = .ok parts) {p : String × Schema}
    (hp : p ∈ parts.path.fields ∨ p ∈ parts.rest.fields) : p ∈ s.fields := by
  obtain ⟨head, fields, o, rfl, -, hpath, hrest⟩ := partition_eq_ok h
  rw [without_object, Except.ok.injEq] at hrest
  rw [hpath, ← hrest] at hp
  rcases hp with hp | hp
  · exact Entries.mem_of_get? (get?_of_mem_pickFields hp)
  · exact (List.mem_filter.mp hp).1

end Schema

/-! ## The ends of an operation -/

namespace Procedure

/-- Whether an input is taken for a schema and split into parts along the path. -/
def Splits (c : Catalog) (p : Procedure) (parts : Partition) : Prop :=
  ∃ s, Schema.ofSource c "input" p.inputSource = .ok s ∧ s.partition p.path = .ok parts

/-- Whether an output is taken for a schema and has an envelope. -/
def Encloses (c : Catalog) (p : Procedure) (envelope : Record TypeExpr) : Prop :=
  ∃ s, Schema.ofSource (p.heedInput c) "output" p.output = .ok s ∧ s.envelope = .ok envelope

def answerCatalog (c : Catalog) (p : Procedure) : Catalog := (p.heedInput c).heedSource p.output

def carried (p : Procedure) (parts : Partition) : Entries Schema :=
  parts.path.fields ++ if p.bringsBody then [] else parts.rest.fields

/-- The schemas that are shown of an input: those of parameters, and that of the body. -/
def shown (p : Procedure) (parts : Partition) : List Schema :=
  (p.carried parts).map Prod.snd ++ if p.bringsBody then [parts.rest] else []

/-- How documenting the input of a procedure may fail. -/
inductive InputFails (c : Catalog) (p : Procedure) : Fault → Prop where
  | source {f : Fault} (h : Schema.ofSource c "input" p.inputSource = .error f) : InputFails c p f
  | split {s : Schema} {v : Violation} (hs : Schema.ofSource c "input" p.inputSource = .ok s)
      (h : s.partition p.path = .error v) : InputFails c p v.fault
  | kind {parts : Partition} {f : String × Schema} (hp : p.Splits c parts)
      (hf : f ∈ p.carried parts) (h : f.2.base.kind ≠ .string) (location : Location) :
      InputFails c p
        (Violation.stringFieldRequired f.1 location.name f.2.base.kind.name).fault
  | parameter {parts : Partition} {f : String × Schema} {g : Fault} (hp : p.Splits c parts)
      (hf : f ∈ p.carried parts) (hk : f.2.base.kind = .string)
      (h : (f.2.render (p.fieldCatalog c) .input).outcome = .error g) : InputFails c p g
  | body {parts : Partition} {g : Fault} (hb : p.bringsBody = true) (hp : p.Splits c parts)
      (h : (parts.rest.render (p.fieldCatalog c) .input).outcome = .error g) : InputFails c p g

/-- How documenting the output of a procedure may fail. -/
inductive OutputFails (c : Catalog) (p : Procedure) : Fault → Prop where
  | source {f : Fault} (h : Schema.ofSource (p.heedInput c) "output" p.output = .error f) :
      OutputFails c p f
  | envelope {s : Schema} {f : Fault}
      (hs : Schema.ofSource (p.heedInput c) "output" p.output = .ok s)
      (h : s.envelope = .error f) : OutputFails c p f
  | answer {envelope : Record TypeExpr} {f : Fault} (he : p.Encloses c envelope)
      (h : ((p.answerCatalog c).describe .output envelopeName (.record envelope)).outcome =
        .error f) : OutputFails c p f

variable {c : Catalog} {p : Procedure}

theorem inputFails_of_parameters {parts : Partition} (hp : p.Splits c parts) {location : Location}
    {s : Schema} (hs : s.kind = .object) (hf : ∀ f ∈ s.fields, f ∈ p.carried parts) {g : Fault}
    (h : (s.parameters (p.fieldCatalog c) location).outcome = .error g) : p.InputFails c g := by
  rw [Schema.parameters_of_object hs] at h
  obtain ⟨f, hmem, h⟩ := Schema.parametersOf_eq_error h
  rcases Schema.parameter_eq_error h with ⟨hk, rfl⟩ | ⟨hk, h⟩
  · exact .kind hp (hf f hmem) hk location
  · exact .parameter hp (hf f hmem) hk h

/-- Whatever is done with the parts of an input and the parameters in the path, the way to them is
the same. -/
theorem inputFails_or {α : Type} {next : Partition → List Parameter → Traced α} {f : Fault}
    {c' : Catalog} (hc : c' = p.fieldCatalog c)
    (h : (do
      let parts ← (← p.inputSource.asInput c).partitioned p.path
      let path ← parts.path.parameters c' .path
      next parts path).outcome = .error f) :
    p.InputFails c f ∨
      ∃ parts path, p.Splits c parts ∧ (next parts path).outcome = .error f := by
  subst hc
  rcases Traced.outcome_bind_eq_error.mp h with h | ⟨s, hs, h⟩
  · exact .inl (.source h)
  · rcases Traced.outcome_bind_eq_error.mp h with h | ⟨parts, hparts, h⟩
    · obtain ⟨v, hv, rfl⟩ := Schema.partitioned_eq_error.mp h
      exact .inl (.split hs hv)
    · have hp := Schema.partitioned_eq_ok.mp hparts
      rcases Traced.outcome_bind_eq_error.mp h with h | ⟨path, -, h⟩
      · exact .inl (inputFails_of_parameters ⟨s, hs, hp⟩ (Schema.kind_of_partition hp).1
          (fun f hf => List.mem_append_left _ hf) h)
      · exact .inr ⟨parts, path, ⟨s, hs, hp⟩, h⟩

theorem inputs_eq_error {f : Fault} (h : (p.inputs c).outcome = .error f) :
    p.InputFails c f := by
  cases hb : p.bringsBody with
  | true =>
    rw [inputs_of_bringsBody hb] at h
    have hcatalog : c.heedSource p.inputSource = p.fieldCatalog c := (if_pos hb).symm
    rcases Traced.outcome_bind_eq_error.mp h with h | ⟨r, -, h⟩
    · rcases inputFails_or hcatalog h with h | ⟨parts, path, hp, h⟩
      · exact h
      · rcases Traced.outcome_bind_eq_error.mp h with h | ⟨j, -, h⟩
        · exact .body hb hp (hcatalog ▸ h)
        · cases h
    · cases h
  | false =>
    rw [inputs_of_not_bringsBody hb] at h
    have hcatalog : c = p.fieldCatalog c := (if_neg (by simp [hb])).symm
    rcases Traced.outcome_bind_eq_error.mp h with h | ⟨qs, -, h⟩
    · rcases inputFails_or hcatalog h with h | ⟨parts, path, hp, h⟩
      · exact h
      · rcases Traced.outcome_bind_eq_error.mp h with h | ⟨query, -, h⟩
        · rw [hcatalog] at h
          obtain ⟨s, hs, hsplit⟩ := hp
          refine inputFails_of_parameters ⟨s, hs, hsplit⟩ (Schema.kind_of_partition hsplit).2
            (fun f hf => List.mem_append_right _ ?_) h
          rwa [hb]
        · cases h
    · cases h

theorem outputFails_of_responses {f : Fault}
    (h : (p.output.responses (p.heedInput c)).outcome = .error f) : p.OutputFails c f := by
  rcases Traced.outcome_bind_eq_error.mp h with h | ⟨s, hs, h⟩
  · exact .source h
  · rcases Traced.outcome_bind_eq_error.mp h with h | ⟨envelope, he, h⟩
    · exact .envelope hs h
    · rcases Traced.outcome_bind_eq_error.mp h with h | ⟨j, -, h⟩
      · exact .answer ⟨s, hs, he⟩ h
      · cases h

/-- An operation that is not documented ends in one of the ways that are listed. -/
theorem operation_eq_fault {f : Fault} (h : (p.operation c).outcome = .error f) :
    ∃ g, f = g.inProcedure p.name ∧ (p.InputFails c g ∨ p.OutputFails c g) := by
  obtain ⟨g, hg, rfl⟩ := Traced.outcome_about_eq_error.mp h
  refine ⟨g, rfl, ?_⟩
  rcases Traced.outcome_bind_eq_error.mp hg with hg | ⟨_, -, hg⟩
  · exact .inl (inputs_eq_error hg)
  · rcases Traced.outcome_bind_eq_error.mp hg with hg | ⟨_, -, hg⟩
    · exact .inr (outputFails_of_responses hg)
    · cases hg

theorem rendered_of_inputs {body : Option Body} {parameters : List Parameter}
    (h : (p.inputs c).outcome = .ok (body, parameters)) : ∃ parts, p.Splits c parts ∧
      (∀ f ∈ p.carried parts, ∃ j, (f.2.render (p.fieldCatalog c) .input).outcome = .ok j) ∧
      (p.bringsBody = true →
        ∃ j, (parts.rest.render (p.fieldCatalog c) .input).outcome = .ok j) := by
  obtain ⟨s, parts, path, hs, hp, hpath, hbody, hnobody⟩ := inputs_eq_ok h
  obtain ⟨hkpath, hkrest⟩ := Schema.kind_of_partition hp
  rw [Schema.parameters_of_object hkpath] at hpath
  refine ⟨parts, ⟨s, hs, hp⟩, fun f hf => ?_, fun hb => ?_⟩
  · rcases List.mem_append.mp hf with hf | hf
    · exact Schema.rendered_of_parametersOf hpath f hf
    · cases hb : p.bringsBody with
      | true =>
        rw [hb] at hf
        cases hf
      | false =>
        obtain ⟨-, query, -, hquery⟩ := hnobody hb
        rw [Schema.parameters_of_object hkrest] at hquery
        rw [hb] at hf
        exact Schema.rendered_of_parametersOf hquery f hf
  · obtain ⟨-, schema, -, hschema⟩ := hbody hb
    exact ⟨schema, hschema⟩

end Procedure
end Procedoc
