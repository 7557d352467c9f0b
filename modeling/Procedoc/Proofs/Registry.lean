import Procedoc.Registry
import Procedoc.Proofs.Document.Listing

/-! # What a registry holds

A registry that grows from the empty one by steps, of which any may fail, holds the procedures of
those that succeed.

* `Registry.StepEnds` says how one step ends, and why.
* `Registry.Sound` is what holds of every registry on the way, and each step keeps it.
* `registry_holds_successes` is what follows for whole runs and for the documents of what is held.
-/

namespace Procedoc
set_option autoImplicit false

/-! ## Proposals -/

theorem Method.ofText?_eq_none {text : String} :
    ofText? text = none ↔ Text.upper text ∉ all.map name := by
  simp only [ofText?, List.find?_eq_none, List.mem_map, decide_eq_true_eq, not_exists, not_and]

theorem Method.name_mem (m : Method) : m.name ∈ ["GET", "POST", "PUT", "PATCH", "DELETE"] := by
  cases m <;> decide

theorem Template.head?_normalize (path : String) :
    (normalize path).toList.head? = some '/' := by
  simp [normalize]

theorem Proposal.accept_eq_ok {p : Proposal} {q : Procedure} (h : p.accept = .ok q) :
    q.name = p.name ∧ q.path = Template.normalize p.path := by
  unfold accept at h
  split at h
  · cases h
  · cases h
    exact ⟨rfl, rfl⟩

namespace Registry

namespace Step

def method : Step → String
  | register p | route p _ => p.method

/-- The name of the procedure of a step: its own, or else that of its handler. -/
def name : Step → String
  | register p => p.name
  | route p h => if p.name = "" then h.name else p.name

/-- Whether documents know the method of a step, without blanks around it and in capitals. -/
def IsSupported (s : Step) : Prop := Text.upper (Text.strip s.method) ∈ Method.all.map Method.name

@[simp] theorem method_proposal (s : Step) : s.proposal.method = s.method := by
  cases s <;> rfl

@[simp] theorem name_proposal (s : Step) : s.proposal.name = s.name := by
  cases s with
  | register p => rfl
  | route p h => simp [proposal, Proposal.servedBy, name]

theorem ofText?_eq_none {s : Step} :
    Method.ofText? (Text.strip s.method) = none ↔ ¬ s.IsSupported := by
  unfold IsSupported
  exact Method.ofText?_eq_none

theorem accept_proposal (s : Step) :
    (¬ s.IsSupported → s.proposal.accept = .error (.unsupportedMethod s.method)) ∧
      (s.IsSupported → ∃ p, s.proposal.accept = .ok p) := by
  unfold Proposal.accept
  rw [method_proposal]
  cases hm : Method.ofText? (Text.strip s.method) with
  | none =>
    exact ⟨fun _ => rfl, fun h => absurd h (ofText?_eq_none.mp hm)⟩
  | some m =>
    refine ⟨fun h => ?_, fun _ => ⟨_, rfl⟩⟩
    rw [ofText?_eq_none.mpr h] at hm
    cases hm

end Step

/-! ## One step -/

variable {r : Registry} {s : Step}

theorem step_of_ok {r' : Registry} (h : r.propose s.proposal = .ok r') : r.step s = r' := by
  unfold step
  rw [h]

theorem step_of_error {v : Violation} (h : r.propose s.proposal = .error v) : r.step s = r := by
  unfold step
  rw [h]

theorem propose_of_accept {p : Procedure} (h : s.proposal.accept = .ok p) :
    r.propose s.proposal = if s.name ∈ r.names then .error (.duplicateProcedure s.name)
      else .ok { procedures := r.procedures ++ [p] } := by
  have hname : p.name = s.name := by simpa using (Proposal.accept_eq_ok h).1
  rw [propose, h]
  simp [bind, Except.bind, register, hname]

/-- How a step ends.  It fails where its method is not known, and else where its name is taken, and
then it changes nothing; otherwise the registry holds one more procedure. -/
structure StepEnds (r : Registry) (s : Step) : Prop where
  unsupported : ¬ s.IsSupported → r.propose s.proposal = .error (.unsupportedMethod s.method)
  taken : s.IsSupported → s.name ∈ r.names →
    r.propose s.proposal = .error (.duplicateProcedure s.name)
  held : s.IsSupported → s.name ∉ r.names → ∃ p, s.proposal.accept = .ok p ∧ p.name = s.name ∧
    r.propose s.proposal = .ok { procedures := r.procedures ++ [p] }
  fails : (∃ v, r.propose s.proposal = .error v) ↔ ¬ s.IsSupported ∨ s.name ∈ r.names
  kept : ∀ v, r.propose s.proposal = .error v → r.step s = r

theorem stepEnds (r : Registry) (s : Step) : r.StepEnds s := by
  obtain ⟨hrefuse, haccept⟩ := s.accept_proposal
  by_cases hs : s.IsSupported
  · obtain ⟨p, hp⟩ := haccept hs
    have hpropose := propose_of_accept (r := r) hp
    have hname : p.name = s.name := by simpa using (Proposal.accept_eq_ok hp).1
    refine ⟨fun h => absurd hs h, fun _ hn => ?_, fun _ hn => ⟨p, hp, hname, ?_⟩, ?_,
      fun _ => step_of_error⟩
    · rw [hpropose, if_pos hn]
    · rw [hpropose, if_neg hn]
    · rw [hpropose]
      by_cases hn : s.name ∈ r.names <;> simp [hn, hs]
  · have hpropose : r.propose s.proposal = .error (.unsupportedMethod s.method) := by
      rw [propose, hrefuse hs]
      rfl
    exact ⟨fun _ => hpropose, fun h => absurd h hs, fun h => absurd h hs,
      iff_of_true ⟨_, hpropose⟩ (.inl hs), fun _ => step_of_error⟩

structure Sound (r : Registry) : Prop where
  names : r.names.Nodup
  methods : ∀ p ∈ r.procedures, p.method.name ∈ ["GET", "POST", "PUT", "PATCH", "DELETE"]
  paths : ∀ p ∈ r.procedures, p.path.toList.head? = some '/'

theorem sound_empty : empty.Sound := ⟨.nil, by simp [empty], by simp [empty]⟩

/-- A step changes nothing, or it adds a procedure with a new name. -/
theorem step_cases (r : Registry) (s : Step) :
    (∃ v, r.propose s.proposal = .error v ∧ r.step s = r) ∨
      ∃ p, s.proposal.accept = .ok p ∧ p.name ∉ r.names ∧
        r.propose s.proposal = .ok { procedures := r.procedures ++ [p] } ∧
        r.step s = { procedures := r.procedures ++ [p] } := by
  obtain ⟨hunsupported, htaken, hheld, -, hkept⟩ := r.stepEnds s
  by_cases hs : s.IsSupported
  · by_cases hn : s.name ∈ r.names
    · exact .inl ⟨_, htaken hs hn, hkept _ (htaken hs hn)⟩
    · obtain ⟨p, hp, hname, hpropose⟩ := hheld hs hn
      exact .inr ⟨p, hp, hname ▸ hn, hpropose, step_of_ok hpropose⟩
  · exact .inl ⟨_, hunsupported hs, hkept _ (hunsupported hs)⟩

theorem Sound.step (h : r.Sound) (s : Step) : (r.step s).Sound := by
  rcases step_cases r s with ⟨-, -, hkept⟩ | ⟨p, hp, hn, -, hstep⟩
  · rw [hkept]
    exact h
  · have hpath := (Proposal.accept_eq_ok hp).2
    rw [hstep]
    refine ⟨?_, fun q _ => q.method.name_mem, fun q hq => ?_⟩
    · have hone : [p.name].Nodup := List.pairwise_singleton _ _
      rw [Registry.names, List.map_append, List.map_singleton]
      refine List.nodup_append.mpr ⟨h.names, hone, fun a ha b hb heq => hn ?_⟩
      rw [← List.mem_singleton.mp hb, ← heq]
      exact ha
    · rcases List.mem_append.mp hq with hq | hq
      · exact h.paths q hq
      · rw [List.mem_singleton.mp hq, hpath]
        exact Template.head?_normalize _

/-! ## Runs -/

theorem Sound.run (h : r.Sound) (steps : List Step) : (r.run steps).Sound := by
  induction steps generalizing r with
  | nil => exact h
  | cons s rest ih =>
    rw [run_cons]
    exact ih (h.step s)

/-- The procedure of a step, if the step succeeds. -/
def gain? (r : Registry) (s : Step) : Option Procedure :=
  (r.propose s.proposal).toOption.bind fun _ => s.proposal.accept.toOption

/-- The procedures of the steps that succeed, in order. -/
def gained (r : Registry) : List Step → List Procedure
  | [] => []
  | s :: rest => (r.gain? s).toList ++ gained (r.step s) rest

theorem procedures_step (r : Registry) (s : Step) :
    (r.step s).procedures = r.procedures ++ (r.gain? s).toList := by
  rcases step_cases r s with ⟨v, hv, hkept⟩ | ⟨p, hp, -, hpropose, hstep⟩
  · rw [hkept, gain?, hv]
    exact (List.append_nil _).symm
  · rw [hstep, gain?, hpropose, hp]
    rfl

theorem procedures_run (r : Registry) (steps : List Step) :
    (r.run steps).procedures = r.procedures ++ r.gained steps := by
  induction steps generalizing r with
  | nil => exact (List.append_nil _).symm
  | cons s rest ih => rw [run_cons, ih, procedures_step, gained, List.append_assoc]

end Registry

/-- A registry that was empty once holds the procedures of the steps that succeeded, in order, under
distinct names, each with a known method and a path that begins with a slash.  A step fails where its
method is not known or its name is taken, and then changes nothing.  So the identifiers in a document
of what is held are the names of what is held, each once. -/
theorem registry_holds_successes (steps : List Registry.Step) :
    (Registry.empty.run steps).procedures = Registry.empty.gained steps ∧
      (Registry.empty.run steps).Sound ∧
      (∀ s, (Registry.empty.run steps).StepEnds s) ∧
      ∀ c about d,
        (Document.build c about (Registry.empty.run steps).procedures).outcome = .ok d →
          (d.operations.map Operation.id).Nodup ∧
          (d.operations.map Operation.id).Perm (Registry.empty.run steps).names := by
  have hsound := Registry.sound_empty.run steps
  refine ⟨Registry.procedures_run .empty steps, hsound, Registry.stepEnds _, fun c about d hd => ?_⟩
  have hids := Document.ids_of_build hd
  exact ⟨hids.nodup_iff.mpr hsound.names, hids⟩

/-- Steps of which one names a method that is not known and one a name that is taken. -/
def noteSteps : List Registry.Step := [
  .register { name := "read", method := " get ", path := "note/", output := .schema (.text {} none) },
  .route { name := "", method := "brew", path := "/note" } { name := "brew" },
  .route { name := "", method := "put", path := "/note" } { name := "read" },
  .route { name := "drop", method := "Delete", path := "/note" } { name := "clear" }]

theorem procedures_noteSteps : (Registry.empty.run noteSteps).procedures = [readNote, dropNote] := by
  rfl

theorem registry_holds_successes_notes :
    ∃ d, (Document.build {} aboutNotes (Registry.empty.run noteSteps).procedures).outcome = .ok d ∧
      (d.operations.map Operation.id).Nodup ∧
      (d.operations.map Operation.id).Perm (Registry.empty.run noteSteps).names := by
  have hd : ∃ d, (Document.build {} aboutNotes
      (Registry.empty.run noteSteps).procedures).outcome = .ok d := by
    rw [procedures_noteSteps]
    exact notes_isOk
  obtain ⟨d, hd⟩ := hd
  obtain ⟨-, -, -, hids⟩ := registry_holds_successes noteSteps
  obtain ⟨hnodup, hperm⟩ := hids _ _ _ hd
  exact ⟨d, hd, hnodup, hperm⟩

end Procedoc
