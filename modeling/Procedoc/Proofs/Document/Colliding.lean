import Procedoc.Proofs.Registry
import Procedoc.Proofs.Template.Normalizing

/-! # Procedures on one route

Procedures collide on the spellings of their paths.  `normalize_canonical` says how far a spelling
speaks for all paths that differ from it in the blanks and slashes around them only: for those that
are framed, but not for one in which a blank is inside of the outermost slashes.
-/

namespace Procedoc
set_option autoImplicit false

open Template (normalize kernel IsLoose IsFramed)

/-! ## Accepting again -/

theorem Method.ofText?_name (m : Method) : ofText? (Text.strip m.name) = some m := by
  cases m <;> decide +kernel

/-- A procedure that is written down again is accepted as it is, with its path spelled anew. -/
theorem Procedure.accept_proposal (p : Procedure) :
    p.proposal.accept = .ok { p with path := normalize p.path } := by
  simp only [Proposal.accept, proposal, Method.ofText?_name]

/-- An accepted procedure is accepted again as it is, unless its path is loose. -/
theorem Proposal.accept_again_iff {p : Proposal} {q : Procedure} (h : p.accept = .ok q) :
    q.proposal.accept = .ok q ↔ ¬ IsLoose p.path := by
  have hpath := (accept_eq_ok h).2
  rw [← Template.normalize_idem_iff, ← hpath, q.accept_proposal, Except.ok.injEq]
  constructor
  · intro heq
    have hpaths := congrArg Procedure.path heq
    exact hpaths
  · intro heq
    rw [heq]

/-! ## Colliding -/

/-- Two procedures of which no list of procedures with one before the other makes a document; where
all before the later one pass, the fault tells of both. -/
structure Document.Collides (q r : Procedure) : Prop where
  never : ∀ c about before rest, q ∈ before →
    ∀ d, (Document.build c about (before ++ r :: rest)).outcome ≠ .ok d
  told : ∀ c about done rest, Document.Passes c [] done → q ∈ done.map Prod.fst →
    (Document.build c about (done.map Prod.fst ++ r :: rest)).outcome =
      .error (Violation.duplicateOperation r.method.name r.path [q.name, r.name]).fault

theorem Document.collides_of_route_eq {q r : Procedure} (h : q.route = r.route) :
    Collides q r := by
  constructor
  · intro c about before rest hq d hd
    -- all routes of a document are different
    have hnodup := (build_isOk_iff.mp ⟨d, hd⟩).1
    rw [List.map_append, List.map_cons, List.nodup_append] at hnodup
    exact hnodup.2.2 _ (List.mem_map_of_mem hq) _ (List.mem_cons_self ..) h
  · intro c about done rest hpasses hq
    have htaken : r.route ∈ (done.map Prod.fst).map Procedure.route :=
      List.mem_map.mpr ⟨q, hq, h⟩
    obtain ⟨f, events, hends, hb⟩ := build_of_offends about hpasses (p := r) (.inl htaken)
    rw [hb rest]
    cases hends with
    | taken _ _ honly => rw [honly q hq h]
    | failed hfree _ => exact absurd htaken hfree

/-- Accepted procedures with framed paths are on one route exactly if they have one method and their
paths differ in the blanks and slashes around them only. -/
theorem Proposal.route_eq_iff {a b : Proposal} {q r : Procedure} (ha : a.accept = .ok q)
    (hb : b.accept = .ok r) (hfa : IsFramed a.path) (hfb : IsFramed b.path) :
    q.route = r.route ↔ q.method = r.method ∧ kernel a.path = kernel b.path := by
  rw [← hfa.normalize_eq_iff hfb, ← (accept_eq_ok ha).2, ← (accept_eq_ok hb).2]
  exact Prod.mk.injEq .. ▸ Iff.rfl

/-- The spelling of a path begins with one slash and does not end with another.  It has a blank at
its end exactly for loose paths, and for these alone it is not its own spelling, and a procedure
that is written down again becomes another.  It is a slash and what is left of the path without any
blanks and slashes around it, and so shared with that, exactly for framed paths; two procedures with
such paths collide if they have one method and their paths differ in the blanks and slashes around
them only. -/
theorem normalize_canonical (path : String) :
    ((∃ rest, (normalize path).toList = '/' :: rest ∧ Text.IsBare (· = '/') rest) ∧
      ((∃ b, (normalize path).toList.getLast? = some b ∧ Text.isBlank b = true) ↔ IsLoose path) ∧
      (normalize (normalize path) = normalize path ↔ ¬ IsLoose path) ∧
      (normalize path = "/" ++ kernel path ↔ IsFramed path) ∧
      (normalize path = normalize (kernel path) ↔ IsFramed path) ∧
      (IsFramed path → ¬ IsLoose path)) ∧
    ∀ (a : Proposal) (q : Procedure), a.path = path → a.accept = .ok q →
      (q.proposal.accept = .ok q ↔ ¬ IsLoose path) ∧
      ∀ (b : Proposal) (r : Procedure), b.accept = .ok r →
        IsFramed path → IsFramed b.path → q.method = r.method →
        (q.path = r.path ↔ kernel path = kernel b.path) ∧
        (kernel path = kernel b.path → Document.Collides q r) := by
  refine ⟨⟨Template.exists_normalize path, Template.normalize_blank_iff,
    Template.normalize_idem_iff, Template.normalize_eq_kernel_iff, Template.normalize_kernel_iff,
    IsFramed.not_isLoose⟩, ?_⟩
  rintro a q rfl ha
  refine ⟨Proposal.accept_again_iff ha, fun b r hb hfa hfb hmethod => ?_⟩
  have hroute := Proposal.route_eq_iff ha hb hfa hfb
  refine ⟨?_, fun hk => Document.collides_of_route_eq (hroute.mpr ⟨hmethod, hk⟩)⟩
  rw [← hfa.normalize_eq_iff hfb, ← (Proposal.accept_eq_ok ha).2, ← (Proposal.accept_eq_ok hb).2]

/-- A proposal with a framed path. -/
def listUsers : Proposal := { name := "list", method := " get ", path := " //users/ " }

/-- A proposal whose path differs from that of `listUsers` in what is around it. -/
def showUsers : Proposal := { name := "show", method := "GET", path := "users//" }

/-- Two proposals with the same path in different frames become procedures that collide. -/
theorem normalize_canonical_users : ∃ q r, listUsers.accept = .ok q ∧ showUsers.accept = .ok r ∧
    q.path = "/users" ∧ q.proposal.accept = .ok q ∧ Document.Collides q r := by
  have hlist : kernel listUsers.path = "users" := by decide +kernel
  have hshow : kernel showUsers.path = "users" := by decide +kernel
  have hframed : IsFramed listUsers.path :=
    ⟨[' '], ['/', '/'], ['/'], [' '], List.all_eq_true.mp (by decide +kernel), by simp,
      by rw [hlist]; decide⟩
  have hframed' : IsFramed showUsers.path :=
    ⟨[], [], ['/', '/'], [], nofun, by simp, by rw [hshow]; decide⟩
  have hq : listUsers.accept = .ok { name := "list", method := .get, path := "/users" } := rfl
  have hr : showUsers.accept = .ok { name := "show", method := .get, path := "/users" } := rfl
  obtain ⟨⟨-, -, -, -, -, hloose⟩, haccepted⟩ := normalize_canonical listUsers.path
  obtain ⟨hagain, hcollide⟩ := haccepted _ _ rfl hq
  refine ⟨_, _, hq, hr, rfl, hagain.mpr (hloose hframed), ?_⟩
  exact (hcollide _ _ hr hframed hframed' rfl).2 (hlist.trans hshow.symm)

/-- A blank inside of the outermost slashes stays: at the end, where the spelling is not its own, or
in front, where two paths that differ in slashes and blanks around them are spelled differently. -/
theorem normalize_keeps_inner_blank :
    normalize "a /" = "/a " ∧ normalize (normalize "a /") = "/a" ∧
    kernel "/ a" = kernel "/a" ∧ normalize "/ a" = "/ a" ∧ normalize "/a" = "/a" := by
  decide +kernel

end Procedoc
