import Procedoc.Proofs.Inlining.Reference
import Procedoc.Exchange

/-! # When rendering answers

Inlining never fails on a schema whose definitions are objects, and none are brought along where no
model or enumeration occurs.  So whether such a schema is rendered can be read off the schema of its
type, and whether an output has responses off `Source.successFragment`.
-/

namespace Procedoc
set_option autoImplicit false

/-- Whether a schema was found, and has no definitions. -/
def bringsNothing (e : Except Fault (Entries Json)) : Bool :=
  match e with
  | .ok e => !Entries.has e "$defs"
  | .error _ => false

theorem inlined_of_bringsNothing {x : Except Fault (Entries Json)} (h : bringsNothing x = true) :
    ∃ e j, x = .ok e ∧ (inlined e).outcome = .ok j := by
  unfold bringsNothing at h
  split at h
  · rename_i e
    have hnone : Entries.get? e "$defs" = none := by simpa [Entries.has] using h
    have hb : Brings e [] := ⟨.inl ⟨hnone, rfl⟩, by simp⟩
    exact ⟨e, _, rfl, by rw [inlined_of_brings hb]⟩
  · cases h

/-! ## Fragments -/

theorem mapError_eq_ok {ε ε' α : Type} {f : ε → ε'} {x : Except ε α} {a : α} :
    x.mapError f = .ok a ↔ x = .ok a := by
  cases x with
  | error e => exact ⟨fun h => (by cases h), fun h => by cases h⟩
  | ok b =>
    constructor <;> intro h <;> cases h <;> rfl

theorem mapError_eq_error {ε ε' α : Type} {f : ε → ε'} {x : Except ε α} {e' : ε'} :
    x.mapError f = .error e' ↔ ∃ e, x = .error e ∧ e' = f e := by
  constructor
  · intro h
    cases x with
    | error e =>
      cases h
      exact ⟨e, rfl, rfl⟩
    | ok a => cases h
  · rintro ⟨e, rfl, rfl⟩
    rfl

section
variable {c : Catalog} {side : Side} {role : String} {a : TypeExpr}

theorem Catalog.fragmentFor_eq_ok {e : Entries Json} :
    c.fragmentFor side role a = .ok e ↔ c.fragment side a = .ok e :=
  mapError_eq_ok

theorem Catalog.fragmentFor_eq_error {f : Fault} :
    c.fragmentFor side role a = .error f ↔
      ∃ h, c.fragment side a = .error h ∧ f = h.fault role a :=
  mapError_eq_error

theorem Catalog.fragment_eq_ok_of_layOut {l : Layout} (hl : c.layOut a = .ok l)
    {e : Entries Json} : c.fragment side a = .ok e ↔ l.schema (c.heed a) side = .ok e := by
  rw [fragment, hl]
  exact mapError_eq_ok

theorem Catalog.exists_layout_of_fragment {e : Entries Json} (h : c.fragment side a = .ok e) :
    ∃ l, c.layOut a = .ok l ∧ l.schema (c.heed a) side = .ok e := by
  cases hl : c.layOut a with
  | error stop =>
    rw [fragment, hl] at h
    cases h
  | ok l => exact ⟨l, rfl, (fragment_eq_ok_of_layOut hl).mp h⟩

end

/-! ## Schemas -/

/-- What a schema shows, with what is said about the field that it was read from. -/
def Schema.remarked (c : Catalog) (side : Side) (s : Schema) : Except Fault (Entries Json) :=
  (s.shown c side).map fun e =>
    match s.origin with
    | some f => Entries.override e f.facts.remarks
    | none => e

theorem Schema.render_eq_ok {c : Catalog} {side : Side} {s : Schema} {j : Json} :
    (s.render c side).outcome = .ok j ↔
      ∃ e, s.remarked c side = .ok e ∧ (inlined e).outcome = .ok j := by
  rw [render, Traced.outcome_bind_eq_ok, remarked]
  change (∃ e, s.shown c side = .ok e ∧ _) ↔ _
  cases s.shown c side with
  | error f => exact ⟨nofun, nofun⟩
  | ok e => cases s.origin <;> simp [Except.map]

theorem Schema.remarked_eq_ok {c : Catalog} {side : Side} {s : Schema} {e' : Entries Json} :
    s.remarked c side = .ok e' ↔ ∃ e, s.shown c side = .ok e ∧
      e' = Entries.override e ((s.origin.map fun f => f.facts.remarks).getD []) := by
  rw [remarked]
  cases s.shown c side with
  | error f => simp [Except.map]
  | ok e => cases s.origin <;> simp [Except.map, eq_comm]

theorem Schema.render_isOk_of_remarked {c : Catalog} {side : Side} {s : Schema}
    (h : bringsNothing (s.remarked c side) = true) : ∃ j, (s.render c side).outcome = .ok j := by
  obtain ⟨e, j, he, hj⟩ := inlined_of_bringsNothing h
  exact ⟨j, Schema.render_eq_ok.mpr ⟨e, he, hj⟩⟩

theorem Schema.render_isOk {c : Catalog} {side : Side} {s : Schema} (ho : s.origin = none)
    (h : bringsNothing (s.shown c side) = true) : ∃ j, (s.render c side).outcome = .ok j := by
  refine Schema.render_isOk_of_remarked ?_
  rw [remarked, ho]
  cases hs : s.shown c side with
  | error f => rwa [hs] at h
  | ok e => rwa [hs] at h

/-- The schema of a success that shows an output, with the definitions that it brings along. -/
def Source.successFragment (c : Catalog) (output : Source) : Except Fault (Entries Json) := do
  let s ← Schema.ofSource c "output" output
  let envelope ← s.envelope
  (c.heedSource output).fragmentFor .output envelopeName (.record envelope)

theorem Source.responses_eq_ok {c : Catalog} {output : Source} {e : Entries Json} {r : Responses}
    (he : output.successFragment c = .ok e) (hr : (inlined e).outcome = .ok r.success) :
    (output.responses c).outcome = .ok r := by
  unfold successFragment at he
  cases hs : Schema.ofSource c "output" output with
  | error f =>
    rw [hs] at he
    cases he
  | ok s =>
    rw [hs] at he
    cases hv : s.envelope with
    | error f =>
      simp [hv, bind, Except.bind] at he
    | ok envelope =>
      simp only [hv, bind, Except.bind] at he
      refine Traced.outcome_bind_eq_ok.mpr ⟨s, hs, ?_⟩
      refine Traced.outcome_bind_eq_ok.mpr ⟨envelope, hv, ?_⟩
      refine Traced.outcome_bind_eq_ok.mpr ⟨r.success, ?_, rfl⟩
      exact Traced.outcome_bind_eq_ok.mpr ⟨e, he, hr⟩

theorem Source.responses_isOk {c : Catalog} {output : Source}
    (h : bringsNothing (output.successFragment c) = true) :
    ∃ r, (output.responses c).outcome = .ok r := by
  obtain ⟨e, j, he, hj⟩ := inlined_of_bringsNothing h
  exact ⟨⟨j⟩, responses_eq_ok he hj⟩

end Procedoc
