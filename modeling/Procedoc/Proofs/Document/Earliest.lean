import Procedoc.Proofs.Document.Listing

/-! # Where a document fails

Where there is no document, the first procedure that offends is to blame, and nothing after it
matters.

* `Document.IsEarliest` says which procedure this is.
* `Procedure.Fails` says how an operation fails: a violation names the procedure beside its own
  details, and the last event is the report on it.
* `document_fails_at_earliest` puts these together with `Document.Ends`.
-/

namespace Procedoc
set_option autoImplicit false

/-! ## How operations fail -/

/-- How an operation fails.  A violation names the procedure beside its own details, and the report
on it comes last, the record of which has all that the report has; nothing is told of other
faults. -/
structure Procedure.Fails (p : Procedure) (f : Fault) (events : List Event) : Prop where
  named : ∀ v procedure, f = .violation v procedure → ∃ r, f.report? = some r ∧
    r.extra = v.details ++ [("procedure", .str p.name)]
  reported : ∀ r, f.report? = some r → ∃ steps, (∀ e ∈ steps, e.isOnTheWay = true) ∧
    events = steps ++ [.operationFailed r]
  recorded : ∀ r, f.report? = some r → (Event.operationFailed r).entries =
    [("event", .str "过程文档生成失败"), ("log_level", .str "error"), ("module", .str "document")] ++
      r.entries
  silent : f.report? = none → ∀ e ∈ events, e.isOnTheWay = true

theorem Procedure.fails_of_operation {c : Catalog} {p : Procedure} {f : Fault}
    (h : (p.operation c).outcome = .error f) : p.Fails f (p.operation c).events := by
  obtain ⟨steps, hsteps, ⟨v, hv, rfl, hevents⟩ | ⟨hnone, hevents⟩⟩ := operation_eq_error h
  · refine ⟨fun _ _ heq => ?_, fun r hr => ?_, fun r hr => ?_, nofun⟩
    · cases heq
      exact ⟨_, rfl, Violation.extra_addDetail hv p.name⟩
    · cases hr
      exact ⟨steps, hsteps, hevents⟩
    · cases hr
      exact Event.entries_operationFailed hv p.name
  · refine ⟨fun v procedure heq => ?_, ?_, ?_, ?_⟩
    · subst heq
      cases procedure <;> cases hnone
    · simp [hnone]
    · simp [hnone]
    · exact fun _ => hevents ▸ hsteps

theorem Procedure.Fails.not_complete {p : Procedure} {f : Fault} {events : List Event}
    (h : p.Fails f events) (operations paths : Nat) :
    Event.documentComplete operations paths ∉ events := by
  intro hm
  cases hr : f.report? with
  | none => cases h.silent hr _ hm
  | some r =>
    obtain ⟨steps, hsteps, rfl⟩ := h.reported r hr
    rcases List.mem_append.mp hm with hm | hm
    · cases hsteps _ hm
    · cases List.mem_singleton.mp hm

/-! ## How documents fail -/

namespace Document

/-- Which procedure is the first that offends, and which are those before it. -/
structure IsEarliest (c : Catalog) (ps before : List Procedure) (p : Procedure) : Prop where
  within : before ++ [p] <+: ps
  others : ∀ earlier q later, before = earlier ++ q :: later → ¬ Offends c earlier q
  offends : Offends c before p

variable {c : Catalog} {before : List Procedure} {p : Procedure} {f : Fault} {events : List Event}

theorem Ends.fails (h : Ends c before p f events) (hfree : p.route ∉ before.map Procedure.route) :
    p.Fails f (p.operation (c.heedAll before)).events := by
  cases h with
  | taken hq hroute _ => exact absurd (List.mem_map.mpr ⟨_, hq, hroute⟩) hfree
  | failed _ hf => exact Procedure.fails_of_operation hf

theorem Ends.not_complete (h : Ends c before p f events)
    (hsteps : ∀ e ∈ steps c before, e.isOnTheWay = true) (operations paths : Nat) :
    Event.documentComplete operations paths ∉ events := by
  have hnot : Event.documentComplete operations paths ∉ steps c before := fun hm => by
    cases hsteps _ hm
  cases h with
  | taken => exact hnot
  | failed _ hf =>
    exact List.not_mem_append hnot ((Procedure.fails_of_operation hf).not_complete _ _)

end Document

/-- A document fails at the first procedure that offends.  Where the route of this one is taken, the
fault names both procedures on it; else it is the fault of the operation, told as operations tell
theirs.  Nothing is reported of a complete document, and what comes after the procedure does not
matter. -/
theorem document_fails_at_earliest {c : Catalog} {about : About} {ps : List Procedure} {f : Fault}
    (h : (Document.build c about ps).outcome = .error f) :
    ∃ before p, Document.IsEarliest c ps before p ∧
      Document.Ends c before p f (Document.build c about ps).events ∧
      (∀ e ∈ Document.steps c before, e.isOnTheWay = true) ∧
      (p.route ∉ before.map Procedure.route →
        p.Fails f (p.operation (c.heedAll before)).events) ∧
      (∀ operations paths, Event.documentComplete operations paths ∉
        (Document.build c about ps).events) ∧
      (∀ rest, Document.build c about (before ++ p :: rest) = Document.build c about ps) ∧
      ((∀ q ∈ before, q.heed c = c) → c.heedAll before = c) := by
  obtain ⟨done, p, rest, hd, rfl, hp⟩ := Document.build_eq_error h
  obtain ⟨g, events, hends, hb⟩ := Document.build_of_offends about hd hp
  have hsteps := hd.isOnTheWay_steps
  rw [hb rest] at h ⊢
  cases h
  refine ⟨done.map Prod.fst, p, ⟨⟨rest, by simp⟩, fun _ _ _ => hd.not_offends, hp⟩, hends, hsteps,
    hends.fails, hends.not_complete hsteps, hb, Catalog.heedAll_eq_self⟩

/-- A procedure on the route of another, with an output that is no schema. -/
def rereadNote : Procedure where
  name := "reread"
  method := .get
  path := "/note"
  output := .value (.int 1)

/-- That its route is taken is told of a procedure, even where its operation fails. -/
theorem document_fails_at_earliest_taken :
    (∃ f, (rereadNote.operation {}).outcome = .error f) ∧
    (Document.build {} aboutNotes [readNote, rereadNote, dropNote]).outcome =
        .error (Violation.duplicateOperation "GET" "/note" ["read", "reread"]).fault ∧
      ∃ before p, Document.IsEarliest {} [readNote, rereadNote, dropNote] before p ∧
        Document.Ends {} before p
          (Violation.duplicateOperation "GET" "/note" ["read", "reread"]).fault
          (Document.build {} aboutNotes [readNote, rereadNote, dropNote]).events := by
  obtain ⟨o, ho⟩ := readNote_isOk
  have hd : Document.Passes {} [] [(readNote, o)] := .cons (by simp) ho (.nil _ _)
  have htaken : rereadNote.route ∈ [readNote].map Procedure.route := by decide
  obtain ⟨f, events, hends, hb⟩ := Document.build_of_offends aboutNotes hd (.inl htaken)
  have h : (Document.build {} aboutNotes [readNote, rereadNote, dropNote]).outcome = .error f :=
    congrArg Traced.outcome (hb [dropNote])
  have hf : f = (Violation.duplicateOperation "GET" "/note" ["read", "reread"]).fault := by
    cases hends with
    | taken hq _ _ =>
      cases List.mem_singleton.mp hq
      rfl
    | failed hfree _ => exact absurd htaken hfree
  subst hf
  obtain ⟨before, p, hearliest, hends, -⟩ := document_fails_at_earliest h
  exact ⟨⟨_, rfl⟩, h, before, p, hearliest, hends⟩

end Procedoc
