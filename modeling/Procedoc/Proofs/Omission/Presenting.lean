import Procedoc.Proofs.Omission.Reaching
import Procedoc.Proofs.Omission.Reduced
import Procedoc.Proofs.Rendering.Showing

/-! # Models that can be shown

Where every model that a model leads to can be shown by itself, the outlines of all of them fit
(`Catalog.Region.fit`) and describe what they outline (`Catalog.Region.describes`), and the layout of
the model stands on them (`Catalog.Region.stands_model`).  So does that of a record that is put
together from some of its fields (`Catalog.Region.stands_leaving`). -/
namespace Procedoc
set_option autoImplicit false

/-! ## Outlines of fields -/

namespace Shaping

def OutlinedAs (sealedAllowed : Bool) (f : Field TypeExpr) (o : Field Shape) : Prop :=
  ∃ s, outlineMarks (outline sealedAllowed f.type) f.marks = .ok s ∧
    o = { f with type := s, marks := [] }

theorem outlineFields_eq_ok {sealedAllowed : Bool} {fields : List (Field TypeExpr)}
    {os : List (Field Shape)} : outlineFields sealedAllowed fields = .ok os ↔
      List.Forall₂ (OutlinedAs sealedAllowed) fields os := by
  induction fields generalizing os with
  | nil =>
    rw [outlineFields, List.forall₂_nil_left_iff]
    exact ⟨fun h => (Except.ok.inj h).symm, fun h => h ▸ rfl⟩
  | cons f rest ih =>
    rw [outlineFields, List.forall₂_cons_left_iff]
    constructor
    · intro h
      obtain ⟨s, hs, h⟩ := exists_of_bind_eq_ok h
      obtain ⟨os', hos', h⟩ := exists_of_bind_eq_ok h
      exact ⟨_, os', ⟨s, hs, rfl⟩, ih.mp hos', (Except.ok.inj h).symm⟩
    · rintro ⟨o, os', ⟨s, hs, rfl⟩, hos', rfl⟩
      rw [hs, ih.mpr hos']
      rfl

end Shaping

open Shaping (outlineFields OutlinedAs outlineFields_eq_ok)

theorem Field.IsInert.outlined {c : Catalog} {config : Config} {sealedAllowed : Bool}
    {f : Field TypeExpr} {o : Field Shape} (hf : f.IsInert c config)
    (h : OutlinedAs sealedAllowed f o) : InertField c config o := by
  obtain ⟨s, hs, rfl⟩ := h
  exact ⟨(Shape.stays_isInert c).outlineMarks (Shaping.inert_outline sealedAllowed f.type hf.type)
      hf.marks hs,
    hf.notes, hf.fallback, hf.name, hf.title⟩

theorem Record.IsInert.outlined {c : Catalog} {r : Record TypeExpr} (hr : r.IsInert c)
    {sealedAllowed : Bool} {os : List (Field Shape)}
    (h : outlineFields sealedAllowed r.fields = .ok os) :
    InertRecord c (Catalog.outlined r os) where
  side := hr.side
  config := hr.config
  fields := by
    refine forall_of_forall₂ (outlineFields_eq_ok.mp h) (P := fun f => f.IsInert c r.config)
      hr.fields ?_
    exact fun f o hfo hf => hf.outlined hfo
  name := hr.name
  doc := hr.doc

theorem Layout.Good.isSome_of_mem_refs {Δ : Outlines} {key : Key} {o : Record Shape} {l : Layout}
    (hl : l.Good Δ key o) {f : Field Shape} (hf : f ∈ o.fields) {k : Key}
    (hk : k ∈ f.type.folded.refs) : (Δ k.owner).isSome := by
  obtain ⟨fields, -, hmap, hagree⟩ := hl.top
  rw [← hmap] at hf
  obtain ⟨g, hg, rfl⟩ := List.mem_map.mp hf
  have hagrees : g.type.folded.Agrees Δ :=
    Shape.Agrees.folded _ (Shape.agreeFields_iff.mp hagree g hg)
  exact Shape.isSome_of_mem_refs _ (Shape.Agrees.folded _ hagrees) hk

/-! ## Outlines of models -/

namespace Catalog
variable {c : Catalog} {E S P Q : String → Prop} {rank : String → Nat}

/-- The rank of an owner: that of a model is above those of all that it names, and records that are
put together have a rank of their own. -/
def ownerRank (rank : String → Nat) (top : Nat) : Owner → Nat
  | .model name => rank name + 1
  | .enumeration _ => 0
  | .made _ _ => top + 1

theorem outlines_eq_record {o : Owner} {q : Record Shape}
    (h : c.outlines E P o = some (.record q)) : ∃ name r os, o = .model name ∧ P name ∧
      c.model? name = some r ∧ outlineFields (Config.allowsSealed r.config) r.fields = .ok os ∧
      q = outlined r os := by
  cases o with
  | model name =>
    rw [outlines] at h
    by_cases hP : P name
    · rw [if_pos hP] at h
      obtain ⟨r, hr, h⟩ := Option.bind_eq_some_iff.mp h
      split at h
      · rename_i os hos
        exact ⟨name, r, os, rfl, hP, hr, hos, (Outline.record.inj (Option.some.inj h)).symm⟩
      · cases h
    · rw [if_neg hP] at h
      cases h
  | enumeration name =>
    rw [outlines] at h
    split at h
    · obtain ⟨e, -, he⟩ := Option.map_eq_some_iff.mp h
      cases he
    · cases h
  | made name number => cases h

theorem outlines_eq_enumeration {o : Owner} {en : Enumeration}
    (h : c.outlines E P o = some (.enumeration en)) : ∃ name, E name ∧
      c.enumeration? name = some en := by
  cases o with
  | model name =>
    rw [outlines] at h
    split at h
    · obtain ⟨r, -, h⟩ := Option.bind_eq_some_iff.mp h
      split at h <;> cases h
    · cases h
  | enumeration name =>
    rw [outlines] at h
    split at h
    · rename_i he
      obtain ⟨en', hen, h⟩ := Option.map_eq_some_iff.mp h
      cases h
      exact ⟨name, he, hen⟩
    · cases h
  | made name number => cases h

/-- What is known of models below a rank is below it. -/
theorem ownerRank_le_of_isSome {k : Nat} (top : Nat) {o : Owner}
    (h : (c.outlines E (Below S rank k) o).isSome) : ownerRank rank top o ≤ k := by
  cases o with
  | model name =>
    by_contra hlt
    rw [outlines, if_neg fun hP => hlt hP.2] at h
    cases h
  | enumeration name => exact Nat.zero_le k
  | made name number => cases h

section Region
variable {ds : List Declaration} {es : List Enumeration}

/-- The outlines of the models of a region fit, if nothing in them reads as a reference. -/
theorem Region.fit_of_isInert (hR : c.Region c.Shown S rank) (h : Catalog.declare ds es = .ok c)
    (hS : ∀ n, S n → ∃ r, c.model? n = some r ∧ r.IsInert c) (top : Nat) :
    (c.outlines c.Shown S).Fit c (ownerRank rank top) where
  falls o q ho f hf key hkey := by
    obtain ⟨n, r, os, rfl, hn, hr, hos, rfl⟩ := outlines_eq_record ho
    obtain ⟨l, r', os', -, hr', hos', -, -, -, hgood⟩ := hR.layOut_model h hn
    rw [hr] at hr'
    cases hr'
    rw [hos] at hos'
    cases hos'
    exact Nat.lt_succ_of_le (ownerRank_le_of_isSome top (hgood.isSome_of_mem_refs hf hkey))
  records o q ho := by
    obtain ⟨n, r, os, rfl, hn, hr, hos, rfl⟩ := outlines_eq_record ho
    obtain ⟨r', hr', hinert⟩ := hS n hn
    rw [hr] at hr'
    cases hr'
    exact hinert.outlined hos
  enumerations o en ho := by
    obtain ⟨name, ⟨en', hen', hinert⟩, hen⟩ := outlines_eq_enumeration ho
    rw [hen] at hen'
    cases hen'
    exact hinert

theorem Region.stands_model (hR : c.Region c.Shown S rank) (h : Catalog.declare ds es = .ok c)
    {n : String} (hn : S n) {r : Record TypeExpr} {os : List (Field Shape)}
    (hr : c.model? n = some r)
    (hos : outlineFields (Config.allowsSealed r.config) r.fields = .ok os) (top : Nat) :
    ∃ l, c.layOut (.model n) = .ok l ∧
      l.Stands (c.outlines c.Shown S) (ownerRank rank top) (.model n) (outlined r os) := by
  obtain ⟨l, r', os', hl, hr', hos', -, -, -, hgood⟩ := hR.layOut_model h hn
  rw [hr] at hr'
  cases hr'
  rw [hos] at hos'
  cases hos'
  refine ⟨l, hl, hgood.mono fun o d hd => outlines_mono (fun m hm => hm.1) o d hd,
    outlines_model hn hr hos, fun p hp => ?_⟩
  obtain ⟨hkey, hagrees⟩ := hgood.defines p hp
  exact Nat.lt_succ_of_le (ownerRank_le_of_isSome top (Shape.agrees_of_key? hkey hagrees))

end Region
end Catalog
end Procedoc
