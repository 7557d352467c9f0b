import Procedoc.Fault

/-! # Events and traced computations

A traced computation reports events, in order, and then answers or fails.  Events that were reported
before a failure stay reported.

* `Event` lists what is reported while documents are made; `Event.entries` is the record of one.
* `Traced` is a computation with its events; it is a monad in which events add up and the first
  fault ends the work.
-/

namespace Procedoc
set_option autoImplicit false

/-- What is reported while documents are made. -/
inductive Event where
  /-- An input was split along a template. -/
  | partitioned (template : String) (pathFields restFields : List String)
  /-- A reference was cut, its target being unknown or open around it. -/
  | referenceCut (ref : String)
  /-- The documentation of a procedure failed. -/
  | operationFailed (report : Report)
  /-- A document is complete. -/
  | documentComplete (operations paths : Nat)

/-- The record of an event: its text, level and origin, then its details. -/
def Event.entries : Event → Entries Json
  | partitioned template pathFields restFields =>
    [("event", .str "输入 schema 拆分完成"), ("log_level", .str "debug"), ("module", .str "paths"),
      ("path", .str template), ("path_fields", .strings pathFields),
      ("rest_fields", .strings restFields)]
  | referenceCut ref =>
    [("event", .str "JSON Schema 引用无法内联, 使用任意值替代"), ("log_level", .str "warning"),
      ("module", .str "json_schema"), ("ref", .str ref)]
  | operationFailed report =>
    Entries.override
      [("event", .str "过程文档生成失败"), ("log_level", .str "error"), ("module", .str "document")]
      report.entries
  | documentComplete operations paths =>
    [("event", .str "OpenAPI 文档生成完成"), ("log_level", .str "info"),
      ("module", .str "document"), ("operations", .int operations), ("paths", .int paths)]

/-- A computation that reports events and then answers or fails. -/
structure Traced (α : Type) where
  events : List Event
  outcome : Except Fault α

namespace Traced
variable {α β γ : Type}

def answer (a : α) : Traced α := ⟨[], .ok a⟩

def fail (f : Fault) : Traced α := ⟨[], .error f⟩

/-- Goes on with an answer; after a fault nothing more happens. -/
def andThen (x : Traced α) (next : α → Traced β) : Traced β :=
  match x.outcome with
  | .ok a => ⟨x.events ++ (next a).events, (next a).outcome⟩
  | .error f => ⟨x.events, .error f⟩

instance : Monad Traced where
  pure := answer
  bind := andThen

def report (e : Event) : Traced Unit := ⟨[e], .ok ()⟩

/-- A computation that reports nothing. -/
def ofExcept (x : Except Fault α) : Traced α := ⟨[], x⟩

instance : MonadLift (Except Fault) Traced := ⟨ofExcept⟩

def refuse (v : Violation) : Traced α := fail v.fault

@[simp] theorem events_pure (a : α) : (pure a : Traced α).events = [] := rfl

@[simp] theorem outcome_pure (a : α) : (pure a : Traced α).outcome = .ok a := rfl

@[simp] theorem events_fail (f : Fault) : (fail f : Traced α).events = [] := rfl

@[simp] theorem outcome_fail (f : Fault) : (fail f : Traced α).outcome = .error f := rfl

theorem bind_of_ok {x : Traced α} {a : α} (next : α → Traced β) (h : x.outcome = .ok a) :
    x >>= next = ⟨x.events ++ (next a).events, (next a).outcome⟩ := by
  show andThen x next = _
  simp [andThen, h]

theorem bind_of_error {x : Traced α} {f : Fault} (next : α → Traced β)
    (h : x.outcome = .error f) : x >>= next = ⟨x.events, .error f⟩ := by
  show andThen x next = _
  simp [andThen, h]

/-- A computation answers only if its first part does. -/
theorem outcome_bind (x : Traced α) (next : α → Traced β) :
    (x >>= next).outcome = x.outcome >>= fun a => (next a).outcome := by
  show (andThen x next).outcome = _
  cases h : x.outcome <;> simp [andThen, h, bind, Except.bind]

theorem outcome_bind_eq_ok {x : Traced α} {next : α → Traced β} {b : β} :
    (x >>= next).outcome = .ok b ↔ ∃ a, x.outcome = .ok a ∧ (next a).outcome = .ok b := by
  rw [outcome_bind]
  cases h : x.outcome <;> simp [bind, Except.bind]

end Traced
end Procedoc
