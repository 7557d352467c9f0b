import Procedoc.Proofs.Omission.Reduced

/-! # Fields of records that are put together

The field that a schema makes goes by the name that it is asked for.  It has to be present where the
outermost wrapper of the schema does not say otherwise (`Schema.isRequired_of_field`), unless it was
read from a field, which it makes again. -/
namespace Procedoc
set_option autoImplicit false

theorem Field.of_stated? {name : String} {type : TypeExpr} {fallback : Fallback}
    {f : Field TypeExpr} (h : Field.stated? name type fallback = some f) :
    f.name = name ∧ f.ruled = none ∧ (f.facts.fallback.made? = none →
      f.facts.fallback.isRequired = fallback.isRequired) := by
  rw [stated?] at h
  dsimp only at h
  split at h
  · cases h
  · cases h
    refine ⟨rfl, rfl, fun hmade => ?_⟩
    dsimp only at hmade ⊢
    split
    · rename_i hrequired
      rw [if_pos hrequired] at hmade
      cases hlast : ((fallbacksOf type.unmarked.2).filterMap Fallback.made?).getLast? with
      | none => exact hrequired.symm
      | some v =>
        rw [hlast] at hmade
        cases hmade
    · rfl

namespace Schema

/-- A schema makes a field of the name that is asked for, and no rule has named it. -/
theorem name_of_field {name : String} {s : Schema} {f : Field TypeExpr} (h : s.field name = .ok f) :
    f.name = name ∧ f.ruled = none := by
  rw [field, fieldOfType] at h
  split at h
  · cases h
    exact ⟨rfl, rfl⟩
  · obtain ⟨a, -, h⟩ := exists_of_bind_eq_ok h
    split at h
    · rename_i g hg
      cases h
      obtain ⟨hname, hruled, -⟩ := Field.of_stated? hg
      exact ⟨hname, hruled⟩
    · cases h

/-- A schema that was read from no field makes one that has to be present where the outermost wrapper
does not say otherwise, unless its value is made anew. -/
theorem isRequired_of_field {name : String} {s : Schema} (ho : s.origin = none)
    {f : Field TypeExpr} (h : s.field name = .ok f) (hmade : f.facts.fallback.made? = none) :
    f.facts.fallback.isRequired = s.fallback.isRequired := by
  rw [field, fieldOfType, ho] at h
  obtain ⟨a, -, h⟩ := exists_of_bind_eq_ok h
  split at h
  · rename_i g hg
    cases h
    exact (Field.of_stated? hg).2.2 hmade
  · cases h

theorem forall₂_of_fieldsOf {fields : List (String × Schema)} {made : List (Field TypeExpr)}
    (h : fieldsOf fields = .ok made) : List.Forall₂
      (fun p f => p.2.field ((p.2.origin.map Field.name).getD p.1) = .ok f) fields made := by
  induction fields generalizing made with
  | nil =>
    rw [fieldsOf] at h
    cases h
    exact .nil
  | cons p rest ih =>
    rw [fieldsOf] at h
    obtain ⟨f, hf, h⟩ := exists_of_bind_eq_ok h
    obtain ⟨fs, hfs, h⟩ := exists_of_bind_eq_ok h
    cases h
    exact .cons hf (ih hfs)

theorem isOptional_of_fallback {s : Schema} (h : s.fallback.isRequired = false) :
    s.isOptional = true := by
  cases s with
  | text | other | object => cases h
  | wrapped w inner o =>
    cases w with
    | optional | default => rw [isOptional]
    | effect => cases h

/-- Whether a schema that was read from a field may be left out where the field may be. -/
def KeepsAbsence (s : Schema) : Prop :=
  ∀ f, s.origin = some f → f.facts.fallback.isRequired = false → s.isOptional = true

theorem keepsAbsence_ofField (objectOf : String → Option Schema) (f : Field TypeExpr) :
    (ofField objectOf f).KeepsAbsence := by
  intro g hg hfallback
  obtain rfl := Option.some.inj ((origin_ofField objectOf f).symm.trans hg)
  simp only [ofField, isOptional_readFrom, hfallback, Bool.false_eq_true, if_false]
  split
  · exact isOptional_optional _
  · exact isOptional_withDefault _ _

theorem KeepsAbsence.without {s s' : Schema} (h : s.KeepsAbsence) {names : List String}
    (hs : s.without names = .ok s') : s'.KeepsAbsence := by
  unfold Schema.without at hs
  split at hs
  · split at hs
    · cases hs
      exact h
    · cases hs
      exact h
  · cases hs

end Schema
end Procedoc
