import Procedoc.Operation
import Procedoc.Proofs.Splitting

/-! # What an operation reports, and how it fails

On the way to an operation inputs are split and references are cut; nothing else is reported, and a
violation that is met is one of the contract on schemas and names no procedure yet.

* `Event.isOnTheWay` and `Fault.isFresh` are these two conditions, on an event and on a fault.
* `FailsFresh` and `Traced.IsFresh` say them of whole computations, and every part of an operation
  is one of these (`Procedure.isFresh_inputs`, `Source.isFresh_responses`).
* `Procedure.operation_eq_error` tells from this how an operation fails: a violation carries the
  name of the procedure beside its own details, and the report on it is the last event.
-/

namespace Procedoc
set_option autoImplicit false

/-- Whether an event tells of a step on the way to an operation. -/
def Event.isOnTheWay : Event → Bool
  | partitioned .. | referenceCut _ => true
  | operationFailed _ | documentComplete .. => false

/-- Whether a fault is as the checks of schemas raise it. -/
def Fault.isFresh : Fault → Bool
  | violation v procedure => procedure.isNone && decide (v.rule.family = .contract)
  | _ => true

/-! ## Computations without events -/

/-- Whether a computation fails only as the checks of schemas do. -/
def FailsFresh {α : Type} (x : Except Fault α) : Prop := ∀ f, x = .error f → f.isFresh = true

namespace FailsFresh
variable {α β : Type}

theorem ok (a : α) : FailsFresh (.ok a) := nofun

theorem error {f : Fault} (h : f.isFresh = true) : FailsFresh (.error f : Except Fault α) := by
  intro g hg
  cases hg
  exact h

theorem bind {x : Except Fault α} {next : α → Except Fault β} (hx : FailsFresh x)
    (hnext : ∀ a, FailsFresh (next a)) : FailsFresh (x >>= next) := by
  cases x with
  | ok a => exact hnext a
  | error f => exact error (hx f rfl)

theorem mapError {ε : Type} (x : Except ε α) {toFault : ε → Fault}
    (h : ∀ e, (toFault e).isFresh = true) : FailsFresh (x.mapError toFault) := by
  cases x with
  | ok a => exact ok a
  | error e => exact error (h e)

theorem mapM {f : α → Except Fault β} (h : ∀ a, FailsFresh (f a)) (xs : List α) :
    FailsFresh (xs.mapM f) := by
  induction xs with
  | nil => exact ok []
  | cons a rest ih =>
    rw [List.mapM_cons]
    exact bind (h a) fun _ => bind ih fun _ => ok _

theorem filterMapM {f : α → Except Fault (Option β)} (h : ∀ a, FailsFresh (f a)) (xs : List α) :
    FailsFresh (xs.filterMapM f) := by
  induction xs with
  | nil => exact ok []
  | cons a rest ih =>
    rw [List.filterMapM_cons]
    refine bind (h a) fun b => ?_
    cases b with
    | none => exact ih
    | some b => exact bind ih fun _ => ok _

end FailsFresh

/-! ## Data of values -/

theorem OctetForm.failsFresh_write (form : OctetForm) (octets : List UInt8) :
    FailsFresh (form.write octets) := by
  unfold write
  split
  · split
    · exact .ok _
    · exact .error rfl
  · exact .ok _
  · exact .ok _

namespace Catalog
variable {c : Catalog} {recordData : String → Entries Json → Except Fault Json}

mutual
theorem failsFresh_dataWith (h : ∀ name given, FailsFresh (recordData name given))
    (form : DataForm) : (v : Value) → FailsFresh (dataWith c recordData form v)
  | .plain j => by
    rw [dataWith]
    exact .ok j
  | .many _ items => by
    rw [dataWith]
    exact .bind (failsFresh_dataOfList h form items) fun _ => .ok _
  | .dict entries => by
    rw [dataWith]
    exact .bind (failsFresh_dataOfEntries h form entries) fun _ => .ok _
  | .member enumeration name => by
    rw [dataWith]
    exact .ok _
  | .octets bytes => by
    rw [dataWith]
    exact form.octets.failsFresh_write bytes
  | .date day => by
    rw [dataWith]
    exact .ok _
  | .record model given => by
    rw [dataWith]
    exact .bind (failsFresh_dataOfEntries h _ given) fun _ => h model _
  | .sealed => by
    rw [dataWith]
    exact .error rfl

theorem failsFresh_dataOfList (h : ∀ name given, FailsFresh (recordData name given))
    (form : DataForm) : (vs : List Value) → FailsFresh (dataOfList c recordData form vs)
  | [] => by
    rw [dataOfList]
    exact .ok []
  | v :: rest => by
    rw [dataOfList]
    exact .bind (failsFresh_dataWith h form v) fun _ =>
      .bind (failsFresh_dataOfList h form rest) fun _ => .ok _

theorem failsFresh_dataOfEntries (h : ∀ name given, FailsFresh (recordData name given))
    (form : DataForm) :
    (vs : List (String × Value)) → FailsFresh (dataOfEntries c recordData form vs)
  | [] => by
    rw [dataOfEntries]
    exact .ok []
  | (_, v) :: rest => by
    rw [dataOfEntries]
    exact .bind (failsFresh_dataWith h form v) fun _ =>
      .bind (failsFresh_dataOfEntries h form rest) fun _ => .ok _
end

theorem failsFresh_fieldData {defaultData : Value → Except Fault Json}
    (h : ∀ v, FailsFresh (defaultData v)) (given : Entries Json) (f : Field TypeExpr) :
    FailsFresh (fieldData defaultData given f) := by
  unfold fieldData
  simp only
  split
  · exact .ok _
  · exact .bind (h _) fun _ => .ok _
  · exact .bind (h _) fun _ => .ok _
  · exact .ok _

theorem failsFresh_recordDataWithin (c : Catalog) (depth : Nat) (model : String)
    (given : Entries Json) : FailsFresh (recordDataWithin c depth model given) := by
  induction depth generalizing model given with
  | zero => exact .ok _
  | succ depth ih =>
    unfold recordDataWithin
    split
    · exact .ok _
    · exact .bind (.mapM (fun f => failsFresh_fieldData (failsFresh_dataWith ih _) given f) _)
        fun _ => .ok _

theorem failsFresh_data (c : Catalog) (v : Value) : FailsFresh (c.data v) :=
  failsFresh_dataWith (failsFresh_recordDataWithin c _) _ v

end Catalog

/-! ## Types of schemas -/

theorem Field.failsFresh_kept? (config : Config) (f : Field TypeExpr) :
    FailsFresh (f.kept? config) := by
  refine .bind (.mapError _ fun _ => rfl) fun standing => ?_
  cases standing with
  | hidden => exact .ok _
  | free | held => exact .ok _

theorem Record.failsFresh_assemble (name : String) (doc : Option String) (config : Config)
    (fields : List (Field TypeExpr)) : FailsFresh (Record.assemble name doc config fields) :=
  .bind (.filterMapM (Field.failsFresh_kept? config) fields) fun _ => .ok _

namespace Schema

theorem failsFresh_fieldOfType (name : String) (s : Schema) {type : Except Fault TypeExpr}
    (h : FailsFresh type) : FailsFresh (fieldOfType name s type) := by
  unfold fieldOfType
  split
  · exact .ok _
  · refine .bind h fun a => ?_
    split
    · exact .ok _
    · exact .error rfl

mutual
theorem failsFresh_type : (s : Schema) → FailsFresh s.type
  | text _ _ => by
    rw [type]
    exact .ok _
  | other _ _ => by
    rw [type]
    exact .ok _
  | wrapped _ none _ => by
    rw [type]
    exact .error rfl
  | wrapped w (some s) _ => by
    rw [type]
    refine .bind (failsFresh_type s) fun _ => ?_
    cases w with
    | optional | default | effect => exact .ok _
  | object head fields _ => by
    rw [type]
    split
    · exact .ok _
    · exact .bind (failsFresh_fieldsOf fields) fun _ =>
        .bind (Record.failsFresh_assemble _ _ _ _) fun _ => .ok _

theorem failsFresh_fieldsOf : (fields : List (String × Schema)) → FailsFresh (fieldsOf fields)
  | [] => by
    rw [fieldsOf]
    exact .ok []
  | (_, s) :: rest => by
    rw [fieldsOf]
    exact .bind (failsFresh_fieldOfType _ s (failsFresh_type s)) fun _ =>
      .bind (failsFresh_fieldsOf rest) fun _ => .ok _
end

theorem failsFresh_envelope (s : Schema) : FailsFresh s.envelope :=
  .bind (failsFresh_fieldOfType _ s (failsFresh_type s)) fun _ =>
    Record.failsFresh_assemble _ _ _ _

/-! ## Schemas as they are shown -/

theorem failsFresh_fragmentFor (c : Catalog) (side : Side) (role : String) (type : TypeExpr) :
    FailsFresh (c.fragmentFor side role type) := by
  refine .mapError _ fun h => ?_
  rcases h with stop | obstacle
  · cases stop <;> rfl
  · cases obstacle <;> rfl

theorem failsFresh_shown (c : Catalog) (side : Side) (s : Schema) :
    FailsFresh (s.shown c side) := by
  cases s with
  | wrapped w inner o =>
    cases inner with
    | none =>
      rw [shown]
      exact .error rfl
    | some i =>
      rw [shown]
      refine .bind (failsFresh_shown c side i) fun e => ?_
      cases w with
      | default value =>
        cases value with
        | some v => exact .bind (c.failsFresh_data v) fun _ => .ok _
        | none => exact .ok _
      | optional | effect => exact .ok _
  | text | other | object =>
    unfold shown
    exact .bind (failsFresh_type _) fun _ => failsFresh_fragmentFor _ _ _ _

theorem failsFresh_ofSource (c : Catalog) (role : String) (source : Source) :
    FailsFresh (ofSource c role source) := by
  unfold ofSource
  split
  · exact .ok _
  · exact .ok _
  · split
    · exact .ok _
    · exact .error rfl
    · exact .error rfl
    · exact .error rfl
  · exact .error rfl

end Schema

/-! ## Computations with events -/

/-- Whether a computation reports and fails only as work on schemas does. -/
structure Traced.IsFresh {α : Type} (x : Traced α) : Prop where
  events : ∀ e ∈ x.events, e.isOnTheWay = true
  outcome : FailsFresh x.outcome

namespace Traced.IsFresh
variable {α β : Type}

theorem pure (a : α) : (pure a : Traced α).IsFresh := ⟨nofun, .ok a⟩

theorem bind {x : Traced α} {next : α → Traced β} (hx : x.IsFresh)
    (hnext : ∀ a, (next a).IsFresh) : (x >>= next).IsFresh := by
  cases ho : x.outcome with
  | ok a =>
    rw [bind_of_ok next ho]
    refine ⟨fun e he => ?_, (hnext a).outcome⟩
    rcases List.mem_append.mp he with he | he
    · exact hx.events e he
    · exact (hnext a).events e he
  | error f =>
    rw [bind_of_error next ho]
    exact ⟨hx.events, .error (hx.outcome f ho)⟩

theorem ofExcept {x : Except Fault α} (h : FailsFresh x) : (ofExcept x).IsFresh := ⟨nofun, h⟩

theorem fail {f : Fault} (h : f.isFresh = true) : (fail f : Traced α).IsFresh :=
  ⟨nofun, .error h⟩

theorem report {e : Event} (h : e.isOnTheWay = true) : (report e).IsFresh :=
  ⟨fun _ he => List.mem_singleton.mp he ▸ h, .ok ()⟩

end Traced.IsFresh

/-! ## Rendering -/

theorem isFresh_settle (mishaps : List Mishap) : (settle mishaps).IsFresh := by
  induction mishaps with
  | nil => exact .pure ()
  | cons m rest ih =>
    cases m with
    | cut ref => exact .bind (.report rfl) fun _ => ih
    | unmergeable => exact .fail rfl

theorem isFresh_inlined (schema : Entries Json) : (inlined schema).IsFresh := by
  refine .bind (.ofExcept ?_) fun definitions => .bind (isFresh_settle _) fun _ => .pure _
  unfold readDefinitions
  split
  · exact .ok _
  · exact .mapError _ fun refusal => by cases refusal <;> rfl

theorem Catalog.isFresh_describe (c : Catalog) (side : Side) (role : String) (type : TypeExpr) :
    (c.describe side role type).IsFresh :=
  .bind (.ofExcept (Schema.failsFresh_fragmentFor c side role type)) fun _ => isFresh_inlined _

theorem Schema.isFresh_render (c : Catalog) (side : Side) (s : Schema) :
    (s.render c side).IsFresh := by
  refine .bind (.ofExcept (failsFresh_shown c side s)) fun _ => ?_
  split
  · exact isFresh_inlined _
  · exact isFresh_inlined _

/-! ## Parameters, bodies, responses -/

theorem Schema.family_of_partition_eq_error {s : Schema} {template : String} {v : Violation}
    (h : s.partition template = .error v) : v.rule.family = .contract := by
  cases s with
  | object head fields o =>
    simp only [partition] at h
    cases hn : Template.placeholdersIn (Entries.keys fields) template with
    | ok names =>
      rw [hn] at h
      simp [Schema.without_object, bind, Except.bind, pure, Except.pure] at h
    | error w =>
      rw [hn] at h
      cases h
      unfold Template.placeholdersIn at hn
      split at hn
      · cases hn
        rfl
      · cases hn
  | text | other | wrapped =>
    cases h
    rfl

theorem Schema.isFresh_partitioned (s : Schema) (template : String) :
    (s.partitioned template).IsFresh := by
  unfold partitioned
  split
  · exact ⟨fun _ he => List.mem_singleton.mp he ▸ rfl, .ok _⟩
  · rename_i h
    refine .fail ?_
    simp [Violation.fault, Fault.isFresh, family_of_partition_eq_error h]

theorem Schema.isFresh_parameter (c : Catalog) (location : Location) (name : String)
    (s : Schema) : (s.parameter c location name).IsFresh := by
  unfold parameter
  split
  · exact .bind (isFresh_render c .input s) fun _ => .pure _
  · exact .fail rfl

theorem isFresh_parametersOf (c : Catalog) (location : Location) (fields : Entries Schema) :
    (parametersOf c location fields).IsFresh := by
  induction fields with
  | nil => exact .pure []
  | cons f rest ih =>
    exact .bind (Schema.isFresh_parameter c location f.1 f.2) fun _ => .bind ih fun _ => .pure _

theorem Schema.isFresh_parameters (c : Catalog) (location : Location) (s : Schema) :
    (s.parameters c location).IsFresh := by
  unfold parameters
  split
  · exact isFresh_parametersOf c location _
  · exact .fail rfl

namespace Source
variable (c : Catalog) (source : Source)

theorem isFresh_asInput : (source.asInput c).IsFresh :=
  .ofExcept (Schema.failsFresh_ofSource c "input" source)

theorem isFresh_allParameters (template : String) : (source.allParameters c template).IsFresh :=
  .bind (isFresh_asInput c source) fun s => .bind (s.isFresh_partitioned template) fun parts =>
    .bind (parts.path.isFresh_parameters c .path) fun _ =>
      .bind (parts.rest.isFresh_parameters c .query) fun _ => .pure _

theorem isFresh_request (template : String) : (source.request c template).IsFresh :=
  .bind (isFresh_asInput c source) fun s => .bind (s.isFresh_partitioned template) fun parts =>
    .bind (parts.path.isFresh_parameters _ .path) fun _ =>
      .bind (parts.rest.isFresh_render _ .input) fun _ => .pure _

theorem isFresh_responses : (source.responses c).IsFresh :=
  .bind (.ofExcept (Schema.failsFresh_ofSource c "output" source)) fun s =>
    .bind (.ofExcept s.failsFresh_envelope) fun _ =>
      .bind (Catalog.isFresh_describe _ _ _ _) fun _ => .pure _

end Source

namespace Procedure

theorem isFresh_inputs (c : Catalog) (p : Procedure) : (p.inputs c).IsFresh := by
  unfold inputs
  split
  · exact .bind (Source.isFresh_request c _ _) fun _ => .pure _
  · exact .bind (Source.isFresh_allParameters c _ _) fun _ => .pure _

end Procedure

/-! ## Operations -/

/-- A violation of the contract on schemas has no detail that tells of a procedure, so that the name
of one comes beside all its own details. -/
theorem Violation.extra_addDetail {v : Violation} (h : v.rule.family = .contract) (name : String) :
    (v.report.addDetail "procedure" (.str name)).extra =
      v.details ++ [("procedure", .str name)] := by
  cases v with
  | notASchema | objectKindRequired | stringFieldRequired | malformedSegment
  | unknownPathField => rfl
  | duplicateOperation | duplicateProcedure | unsupportedMethod => cases h

/-- The record of a failed operation has all that is told of the failure beside its own entries. -/
theorem Event.entries_operationFailed {v : Violation} (h : v.rule.family = .contract)
    (name : String) :
    (operationFailed (v.report.addDetail "procedure" (.str name))).entries =
      [("event", .str "过程文档生成失败"), ("log_level", .str "error"),
          ("module", .str "document")] ++
        (v.report.addDetail "procedure" (.str name)).entries := by
  cases v with
  | notASchema | objectKindRequired | stringFieldRequired | malformedSegment
  | unknownPathField => rfl
  | duplicateOperation | duplicateProcedure | unsupportedMethod => cases h

theorem Traced.outcome_about_eq_ok {α : Type} {procedure : String} {x : Traced α} {a : α} :
    (x.about procedure).outcome = .ok a ↔ x.outcome = .ok a := by
  unfold about
  split
  · rfl
  · rename_i f hf
    simp only [hf]
    split <;> simp

/-- A computation about a procedure ends as it does by itself, but that the violation which ends it
names the procedure and is reported. -/
theorem Traced.IsFresh.about_cases {α : Type} {x : Traced α} (h : x.IsFresh) (name : String) :
    (∃ a, x.about name = ⟨x.events, .ok a⟩) ∨
    (∃ v, v.rule.family = .contract ∧ x.about name =
      ⟨x.events ++ [.operationFailed (v.report.addDetail "procedure" (.str name))],
        .error (.violation v (some name))⟩) ∨
    ∃ f, f.report? = none ∧ x.about name = ⟨x.events, .error f⟩ := by
  obtain ⟨events, outcome⟩ := x
  cases outcome with
  | ok a => exact .inl ⟨a, rfl⟩
  | error f =>
    have hf : f.isFresh = true := h.outcome f rfl
    cases f with
    | violation v procedure =>
      simp only [Fault.isFresh, Bool.and_eq_true, Option.isNone_iff_eq_none,
        decide_eq_true_eq] at hf
      obtain ⟨rfl, hv⟩ := hf
      exact .inr (.inl ⟨v, hv, rfl⟩)
    | _ => exact .inr (.inr ⟨_, rfl, rfl⟩)

namespace Procedure
variable {c : Catalog} {p : Procedure}

theorem exists_operation_eq_about (c : Catalog) (p : Procedure) :
    ∃ x : Traced Operation, x.IsFresh ∧ p.operation c = x.about p.name ∧
      ∀ o, x.outcome = .ok o → o.id = p.name := by
  refine ⟨_, .bind (isFresh_inputs c p) fun _ => .bind (Source.isFresh_responses _ _) fun _ =>
    .pure _, rfl, fun o ho => ?_⟩
  obtain ⟨_, -, ho⟩ := Traced.outcome_bind_eq_ok.mp ho
  obtain ⟨_, -, ho⟩ := Traced.outcome_bind_eq_ok.mp ho
  cases ho
  rfl

theorem operation_eq_ok {o : Operation} (h : (p.operation c).outcome = .ok o) :
    o.id = p.name ∧ ∀ e ∈ (p.operation c).events, e.isOnTheWay = true := by
  obtain ⟨x, hx, heq, hid⟩ := exists_operation_eq_about c p
  rw [heq] at h ⊢
  rcases hx.about_cases p.name with ⟨a, ha⟩ | ⟨v, -, ha⟩ | ⟨f, -, ha⟩
  · refine ⟨hid o (Traced.outcome_about_eq_ok.mp h), ?_⟩
    rw [ha]
    exact hx.events
  · rw [ha] at h
    cases h
  · rw [ha] at h
    cases h

/-- An operation fails on a violation, which names the procedure and is reported last, or on a fault
of which nothing is told. -/
theorem operation_eq_error {f : Fault} (h : (p.operation c).outcome = .error f) :
    ∃ steps, (∀ e ∈ steps, e.isOnTheWay = true) ∧
      ((∃ v, v.rule.family = .contract ∧ f = .violation v (some p.name) ∧
        (p.operation c).events =
          steps ++ [.operationFailed (v.report.addDetail "procedure" (.str p.name))]) ∨
      f.report? = none ∧ (p.operation c).events = steps) := by
  obtain ⟨x, hx, heq, -⟩ := exists_operation_eq_about c p
  rw [heq] at h ⊢
  refine ⟨x.events, hx.events, ?_⟩
  rcases hx.about_cases p.name with ⟨a, ha⟩ | ⟨v, hv, ha⟩ | ⟨g, hg, ha⟩
  · rw [ha] at h
    cases h
  · rw [ha] at h ⊢
    cases h
    exact .inl ⟨v, hv, rfl, rfl⟩
  · rw [ha] at h ⊢
    cases h
    exact .inr ⟨hg, rfl⟩

end Procedure
end Procedoc
