import Mathlib.Data.List.Induction
import Mathlib.Data.List.Nodup
import Procedoc.Document
import Procedoc.Proofs.Operation.Course

/-! # Going through procedures

`Document.gather` documents procedures one after another and stops at the first that offends: whose
route is taken, or whose operation fails.

* `Catalog.heedAll` is the catalog that some procedures leave behind, in which the next one is
  documented.
* `Document.Passes` says of procedures with their operations that none of them offends.  Every list
  begins with as many as pass (`Document.exists_passes`), `Document.gather` goes through these
  (`Document.gather_append`), and then it ends or meets an offender.
* `Document.build_eq_ok` and `Document.build_eq_error` are what follows for whole documents, and
  `Document.build_isOk_iff` tells when there is one.
-/

namespace Procedoc
set_option autoImplicit false

/-- Method and path of a procedure, which no two procedures of a document share. -/
def Procedure.route (p : Procedure) : Method × String := (p.method, p.path)

/-! ## The catalog on the way -/

/-- The catalog after procedures were documented one after another. -/
def Catalog.heedAll (c : Catalog) (ps : List Procedure) : Catalog :=
  ps.foldl (fun c p => p.heed c) c

namespace Catalog

@[simp] theorem heedAll_nil (c : Catalog) : c.heedAll [] = c := rfl

@[simp] theorem heedAll_cons (c : Catalog) (p : Procedure) (ps : List Procedure) :
    c.heedAll (p :: ps) = (p.heed c).heedAll ps := rfl

/-- Procedures that leave nothing behind one by one leave nothing behind together. -/
theorem heedAll_eq_self {c : Catalog} {ps : List Procedure} (h : ∀ p ∈ ps, p.heed c = c) :
    c.heedAll ps = c := by
  induction ps with
  | nil => rfl
  | cons p rest ih =>
    rw [heedAll_cons, h p (List.mem_cons_self ..)]
    exact ih fun q hq => h q (List.mem_cons_of_mem _ hq)

/-- Whether two catalogs are the same but for remarks. -/
structure Same (c c' : Catalog) : Prop where
  models : c'.models = c.models
  enumerations : c'.enumerations = c.enumerations
  layouts : c'.layouts = c.layouts

namespace Same
variable {c c' c'' : Catalog}

theorem refl (c : Catalog) : Same c c := ⟨rfl, rfl, rfl⟩

theorem trans (h : Same c c') (h' : Same c' c'') : Same c c'' :=
  ⟨h'.models.trans h.models, h'.enumerations.trans h.enumerations, h'.layouts.trans h.layouts⟩

theorem heed (c : Catalog) (a : TypeExpr) : Same c (c.heed a) := by
  cases a <;> exact ⟨rfl, rfl, rfl⟩

theorem heedSource (c : Catalog) (s : Source) : Same c (c.heedSource s) := by
  cases s with
  | type a => exact heed c a
  | schema | value => exact refl c

theorem heededBy (c : Catalog) (s : Schema) : Same c (s.heededBy c) := by
  unfold Schema.heededBy
  split
  · exact heed c _
  · exact refl c

theorem heedInput (c : Catalog) (p : Procedure) : Same c (p.heedInput c) := by
  unfold Procedure.heedInput Catalog.heedInput
  split
  · split
    · dsimp only
      split
      · exact (heedSource c _).trans (heededBy _ _)
      · exact heedSource c _
    · exact heedSource c _
  · exact refl c

theorem heedProcedure (c : Catalog) (p : Procedure) : Same c (p.heed c) := by
  rw [Procedure.heed, heedOutput]
  have houtput := (heedInput c p).trans (heedSource _ p.output)
  split
  · exact houtput.trans (heed _ _)
  · exact houtput

theorem heedAll (c : Catalog) (ps : List Procedure) : Same c (c.heedAll ps) := by
  induction ps generalizing c with
  | nil => exact refl c
  | cons p rest ih => exact (heedProcedure c p).trans (ih _)

end Same

end Catalog

namespace Document

/-! ## Events on the way -/

/-- What is reported while procedures are documented one after another. -/
def steps (c : Catalog) : List Procedure → List Event
  | [] => []
  | p :: rest => (p.operation c).events ++ steps (p.heed c) rest

/-! ## Procedures that pass -/

/-- Procedures with their operations, as they are found one after another; none is on a route of
those before it. -/
inductive Passes : Catalog → List Procedure → List (Procedure × Operation) → Prop where
  | nil (c : Catalog) (before : List Procedure) : Passes c before []
  | cons {c : Catalog} {before : List Procedure} {p : Procedure} {o : Operation}
      {rest : List (Procedure × Operation)} (hroute : p.route ∉ before.map Procedure.route)
      (ho : (p.operation c).outcome = .ok o) (hrest : Passes (p.heed c) (before ++ [p]) rest) :
      Passes c before ((p, o) :: rest)

variable {c : Catalog} {before : List Procedure} {done : List (Procedure × Operation)}

theorem passes_append {more : List (Procedure × Operation)} :
    Passes c before (done ++ more) ↔ Passes c before done ∧
      Passes (c.heedAll (done.map Prod.fst)) (before ++ done.map Prod.fst) more := by
  induction done generalizing c before with
  | nil => simp [Passes.nil]
  | cons d rest ih =>
    constructor
    · rintro (_ | ⟨hroute, ho, hrest⟩)
      obtain ⟨hd, hm⟩ := ih.mp hrest
      exact ⟨.cons hroute ho hd, by simpa using hm⟩
    · rintro ⟨_ | ⟨hroute, ho, hrest⟩, hm⟩
      exact .cons hroute ho (ih.mpr ⟨hrest, by simpa using hm⟩)

theorem Passes.nodup (h : Passes c before done) (hb : (before.map Procedure.route).Nodup) :
    ((before ++ done.map Prod.fst).map Procedure.route).Nodup := by
  induction h with
  | nil => simpa using hb
  | @cons c before p o rest hroute _ _ ih =>
    have hb' : ((before ++ [p]).map Procedure.route).Nodup := by
      simpa [List.nodup_append, hb] using fun q hq hr => hroute (List.mem_map.mpr ⟨q, hq, hr⟩)
    simpa using ih hb'

theorem Passes.nodup_routes (h : Passes c [] done) :
    ((done.map Prod.fst).map Procedure.route).Nodup := h.nodup .nil

theorem Passes.split {ps qs : List Procedure} {p : Procedure} (h : Passes c before done)
    (hd : done.map Prod.fst = ps ++ p :: qs) :
    p.route ∉ (before ++ ps).map Procedure.route ∧
      ∃ o, (p, o) ∈ done ∧ (p.operation (c.heedAll ps)).outcome = .ok o := by
  obtain ⟨xs, ys, rfl, rfl, hy⟩ := List.map_eq_append_iff.mp hd
  obtain ⟨⟨p, o⟩, zs, rfl, rfl, rfl⟩ := List.map_eq_cons_iff.mp hy
  obtain ⟨-, _ | ⟨hroute, ho, -⟩⟩ := passes_append.mp h
  exact ⟨hroute, o, by simp, ho⟩

/-- Procedures that pass report no failure and no end. -/
theorem Passes.isOnTheWay_steps (h : Passes c before done) :
    ∀ e ∈ steps c (done.map Prod.fst), e.isOnTheWay = true := by
  induction h with
  | nil => exact nofun
  | cons _ ho _ ih =>
    intro e he
    rcases List.mem_append.mp he with he | he
    · exact (Procedure.operation_eq_ok ho).2 e he
    · exact ih e he

/-! ## Where it stops -/

/-- Whether a procedure cannot be documented after some others: its route is taken, or its operation
fails. -/
def Offends (c : Catalog) (before : List Procedure) (p : Procedure) : Prop :=
  p.route ∈ before.map Procedure.route ∨ ∃ f, (p.operation (c.heedAll before)).outcome = .error f

theorem Passes.not_offends {ps qs : List Procedure} {p : Procedure} (h : Passes c [] done)
    (hd : done.map Prod.fst = ps ++ p :: qs) : ¬ Offends c ps p := by
  obtain ⟨hroute, o, -, ho⟩ := h.split hd
  rintro (htaken | ⟨f, hf⟩)
  · exact hroute htaken
  · rw [ho] at hf
    cases hf

/-- What is raised at a procedure that offends, and what was reported before. -/
inductive Ends (c : Catalog) (before : List Procedure) (p : Procedure) :
    Fault → List Event → Prop where
  /-- One earlier procedure has the route; the operation is not even looked at. -/
  | taken {q : Procedure} (hq : q ∈ before) (hroute : q.route = p.route)
      (honly : ∀ q' ∈ before, q'.route = p.route → q' = q) :
      Ends c before p (Violation.duplicateOperation p.method.name p.path [q.name, p.name]).fault
        (steps c before)
  /-- The route is free, and the operation fails. -/
  | failed {f : Fault} (hfree : p.route ∉ before.map Procedure.route)
      (hf : (p.operation (c.heedAll before)).outcome = .error f) :
      Ends c before p f (steps c before ++ (p.operation (c.heedAll before)).events)

/-- Every list of procedures begins with some that pass; the next one, if there is one, offends. -/
theorem exists_passes (c : Catalog) (ps : List Procedure) :
    ∃ done, Passes c [] done ∧ (done.map Prod.fst = ps ∨
      ∃ p rest, ps = done.map Prod.fst ++ p :: rest ∧ Offends c (done.map Prod.fst) p) := by
  induction ps using List.reverseRecOn with
  | nil => exact ⟨[], .nil c [], .inl rfl⟩
  | append_singleton ps p ih =>
    obtain ⟨done, hd, rfl | ⟨q, rest, rfl, hq⟩⟩ := ih
    · by_cases hp : Offends c (done.map Prod.fst) p
      · exact ⟨done, hd, .inr ⟨p, [], rfl, hp⟩⟩
      · obtain ⟨hroute, hfails⟩ := not_or.mp hp
        cases ho : (p.operation (c.heedAll (done.map Prod.fst))).outcome with
        | error f => exact absurd ⟨f, ho⟩ hfails
        | ok o =>
          refine ⟨done ++ [(p, o)], passes_append.mpr ⟨hd, ?_⟩, .inl (by simp)⟩
          exact .cons hroute ho (.nil _ _)
    · exact ⟨done, hd, .inr ⟨q, rest ++ [p], by simp, hq⟩⟩

theorem exists_passes_iff {ps : List Procedure} :
    (∃ done, Passes c [] done ∧ done.map Prod.fst = ps) ↔ (ps.map Procedure.route).Nodup ∧
      ∀ before p rest, ps = before ++ p :: rest →
        ∃ o, (p.operation (c.heedAll before)).outcome = .ok o := by
  constructor
  · rintro ⟨done, hd, rfl⟩
    refine ⟨hd.nodup_routes, fun before p rest heq => ?_⟩
    obtain ⟨-, o, -, ho⟩ := hd.split heq
    exact ⟨o, ho⟩
  · rintro ⟨hroutes, hall⟩
    obtain ⟨done, hd, hps | ⟨p, rest, rfl, hp⟩⟩ := exists_passes c ps
    · exact ⟨done, hd, hps⟩
    · obtain ⟨o, ho⟩ := hall _ _ _ rfl
      rcases hp with htaken | ⟨f, hf⟩
      · rw [List.map_append, List.nodup_append] at hroutes
        exact absurd rfl (hroutes.2.2 _ htaken _ (List.mem_cons_self ..))
      · rw [ho] at hf
        cases hf

/-! ## Going through -/

theorem holderOf?_eq_some {p q : Procedure} (h : holderOf? before p = some q) :
    q ∈ before ∧ q.route = p.route := by
  refine ⟨List.mem_of_find?_eq_some h, ?_⟩
  have hq := List.find?_some h
  simp only [Bool.and_eq_true, decide_eq_true_eq] at hq
  exact Prod.ext hq.1 hq.2

theorem holderOf?_eq_none {p : Procedure} :
    holderOf? before p = none ↔ p.route ∉ before.map Procedure.route := by
  simp only [holderOf?, List.find?_eq_none, List.mem_map, Procedure.route, Bool.and_eq_true,
    decide_eq_true_eq, Prod.mk.injEq, not_exists, not_and]

/-- The operations of procedures under their paths and methods, written over some others. -/
def putAll (paths : Entries PathItem) (done : List (Procedure × Operation)) : Entries PathItem :=
  done.foldl (fun paths d => putOperation paths d.1 d.2) paths

theorem gather_append (paths : Entries PathItem) (rest : List Procedure)
    (h : Passes c before done) :
    gather c before paths (done.map Prod.fst ++ rest) =
      ⟨steps c (done.map Prod.fst) ++ (gather (c.heedAll (done.map Prod.fst))
          (before ++ done.map Prod.fst) (putAll paths done) rest).events,
        (gather (c.heedAll (done.map Prod.fst)) (before ++ done.map Prod.fst)
          (putAll paths done) rest).outcome⟩ := by
  induction h generalizing paths with
  | nil => simp [steps, putAll]
  | @cons c before p o others hroute ho hrest ih =>
    have hfree := holderOf?_eq_none.mpr hroute
    rw [List.map_cons, List.cons_append, gather, hfree, Traced.bind_of_ok _ ho,
      ih (putOperation paths p o)]
    simp [steps, putAll]

theorem gather_taken {p q : Procedure} (h : holderOf? before p = some q)
    (paths : Entries PathItem) (rest : List Procedure) :
    gather c before paths (p :: rest) =
      Traced.refuse (.duplicateOperation p.method.name p.path [q.name, p.name]) := by
  rw [gather, h]

theorem gather_failed {p : Procedure} {f : Fault} (h : holderOf? before p = none)
    (hf : (p.operation c).outcome = .error f) (paths : Entries PathItem)
    (rest : List Procedure) :
    gather c before paths (p :: rest) = ⟨(p.operation c).events, .error f⟩ := by
  rw [gather, h, Traced.bind_of_error _ hf]

/-! ## Whole documents -/

/-- The operations of procedures under their paths and methods. -/
def listing (done : List (Procedure × Operation)) : Entries PathItem := putAll [] done

theorem build_of_passes (about : About) (h : Passes c [] done) :
    build c about (done.map Prod.fst) =
      ⟨steps c (done.map Prod.fst) ++ [.documentComplete done.length (listing done).length],
        .ok ⟨about, listing done⟩⟩ := by
  have hg := gather_append [] [] h
  rw [List.append_nil, gather] at hg
  rw [build, Traced.bind_of_ok _ (congrArg Traced.outcome hg), hg, List.length_map]
  simp [listing, Traced.report, bind, Traced.andThen]

/-- A document fails at the first procedure that offends, whatever comes after it. -/
theorem build_of_offends (about : About) (h : Passes c [] done) {p : Procedure}
    (hp : Offends c (done.map Prod.fst) p) : ∃ f events, Ends c (done.map Prod.fst) p f events ∧
      ∀ rest, build c about (done.map Prod.fst ++ p :: rest) = ⟨events, .error f⟩ := by
  have hg := fun rest => gather_append [] (p :: rest) h
  simp only [List.nil_append] at hg
  cases hh : holderOf? (done.map Prod.fst) p with
  | some q =>
    obtain ⟨hq, hroute⟩ := holderOf?_eq_some hh
    have honly : ∀ q' ∈ done.map Prod.fst, q'.route = p.route → q' = q := fun q' hq' hroute' =>
      List.inj_on_of_nodup_map h.nodup_routes hq' hq (hroute'.trans hroute.symm)
    refine ⟨_, _, .taken hq hroute honly, fun rest => ?_⟩
    have hg := hg rest
    rw [gather_taken hh] at hg
    rw [build, Traced.bind_of_error _ (congrArg Traced.outcome hg), hg]
    simp [Traced.refuse]
  | none =>
    have hfree := holderOf?_eq_none.mp hh
    obtain ⟨f, hf⟩ := hp.resolve_left hfree
    refine ⟨f, _, .failed hfree hf, fun rest => ?_⟩
    have hg := hg rest
    rw [gather_failed hh hf] at hg
    rw [build, Traced.bind_of_error _ (congrArg Traced.outcome hg), hg]

variable {about : About} {ps : List Procedure}

/-- A document is the listing of procedures that all pass. -/
theorem build_eq_ok {d : Document} (h : (build c about ps).outcome = .ok d) :
    ∃ done, Passes c [] done ∧ done.map Prod.fst = ps ∧ d = ⟨about, listing done⟩ := by
  obtain ⟨done, hd, rfl | ⟨p, rest, rfl, hp⟩⟩ := exists_passes c ps
  · rw [build_of_passes about hd] at h
    exact ⟨done, hd, rfl, (Except.ok.inj h).symm⟩
  · obtain ⟨f, events, -, hb⟩ := build_of_offends about hd hp
    rw [hb rest] at h
    cases h

/-- Where there is no document, some procedures pass and the next one offends. -/
theorem build_eq_error {f : Fault} (h : (build c about ps).outcome = .error f) :
    ∃ done p rest, Passes c [] done ∧ ps = done.map Prod.fst ++ p :: rest ∧
      Offends c (done.map Prod.fst) p := by
  obtain ⟨done, hd, rfl | ⟨p, rest, hps, hp⟩⟩ := exists_passes c ps
  · rw [build_of_passes about hd] at h
    cases h
  · exact ⟨done, p, rest, hd, hps, hp⟩

theorem build_isOk_iff : (∃ d, (build c about ps).outcome = .ok d) ↔
    (ps.map Procedure.route).Nodup ∧ ∀ before p rest, ps = before ++ p :: rest →
      ∃ o, (p.operation (c.heedAll before)).outcome = .ok o := by
  rw [← exists_passes_iff]
  constructor
  · rintro ⟨d, h⟩
    obtain ⟨done, hd, hps, -⟩ := build_eq_ok h
    exact ⟨done, hd, hps⟩
  · rintro ⟨done, hd, rfl⟩
    exact ⟨_, congrArg Traced.outcome (build_of_passes about hd)⟩

end Document
end Procedoc
