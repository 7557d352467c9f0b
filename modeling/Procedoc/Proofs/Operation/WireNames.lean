import Procedoc.Proofs.Omission.Reduced

/-! # Names of fields as inputs

An object has its fields under keys, and the schema of the model describes properties.  Both names
come from the facts about a field, by rules of their own: `Field.readsAsKey_of_single` says where they
are one, and `Catalog.isSpread` why a name for the outside alone is no exception. -/
namespace Procedoc
set_option autoImplicit false

/-! ## Names that are spread -/

/-- Whether facts with a name for the outside also name what the field is read under. -/
def Facts.IsSpread (f : Facts) : Prop := f.outsideName.isSome → f.readName.isSome

namespace Facts

theorem IsSpread.merge {earlier later : Facts} (h : earlier.IsSpread) (h' : later.IsSpread) :
    (earlier.merge later).IsSpread := by
  intro ho
  simp only [Facts.merge, Option.isSome_or, Bool.or_eq_true] at ho ⊢
  exact ho.imp h' h

end Facts

/-- A declared field is the one that is meant, but that a value which its name holds is its
default. -/
theorem DeclaredField.exists_resolved {config : Config} {d : DeclaredField} {f : Field TypeExpr}
    (h : d.field? config = .ok (some f)) : ∃ resolved,
      Field.resolve? d.name d.type d.facts d.bounds = some resolved ∧
      ∃ fallback, f = { resolved with facts := { resolved.facts with fallback } } := by
  rw [DeclaredField.field?] at h
  obtain ⟨standing, -, h⟩ := exists_of_bind_eq_ok h
  cases hresolved : Field.resolve? d.name d.type d.facts d.bounds with
  | none =>
    rw [hresolved] at h
    cases h
  | some resolved =>
    rw [hresolved] at h
    cases standing with
    | free =>
      cases h
      exact ⟨_, rfl, _, rfl⟩
    | hidden => cases h
    | held value =>
      cases h
      exact ⟨_, rfl, _, rfl⟩

namespace Field
variable {α : Type}

/-- Whether the property that documents a field as an input has the key of the field. -/
def ReadsAsKey (f : Field α) : Prop := f.known.readProperty f.name = f.key

theorem ReadsAsKey.propertyName {f : Field α} (h : f.ReadsAsKey) {config : Config}
    (hreads : Config.readsOutsideNames config = true) : propertyName .input config f = f.key := by
  rw [Procedoc.propertyName, if_pos hreads]
  exact h

end Field
end Procedoc
