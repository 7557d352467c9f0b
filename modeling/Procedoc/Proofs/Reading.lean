import Procedoc.Schema.Introspection

/-! # What holds of every schema that is read

A schema that is read from a type is a leaf or the object of a model, possibly with checks around
it and a description over it.  `Schema.Inherits` says of a property that it does not mind these, and
then it holds of the schema of every type and of every model if it holds of the objects of records
(`Schema.Inherits.ofSource`).
-/

namespace Procedoc
set_option autoImplicit false
namespace Schema

/-- Whether the schema of a type has a property because the objects that are opened in it do. -/
structure Inherits (P : Schema → Prop) : Prop where
  text : ∀ leaf, P (text leaf none)
  other : ∀ leaf, P (other leaf none)
  described : ∀ head fields o d, P (object head fields o) →
    P (object { head with description := some d } fields o)
  checked : ∀ s checks, P s → P (s.checked checks)

namespace Inherits
variable {P : Schema → Prop} {objectOf : String → Option Schema}

theorem ofBase (hP : Inherits P) (h : ∀ name s, objectOf name = some s → P s) (type : TypeExpr)
    (marks : List Mark) (description : Option String) :
    P (ofBase objectOf type marks description) := by
  unfold Schema.ofBase
  split
  · exact hP.text _
  · rename_i name
    split
    · rename_i head fields o ho
      split
      · split
        · exact h name _ ho
        · exact hP.described _ _ _ _ (h name _ ho)
      · exact h name _ ho
    · exact hP.other _
  · exact hP.other _

theorem ofMarked (hP : Inherits P) (h : ∀ name s, objectOf name = some s → P s) (type : TypeExpr)
    (marks : List Mark) (description : Option String) :
    P (ofMarked objectOf type marks description) := by
  unfold Schema.ofMarked
  simp only
  split
  · exact hP.ofBase h _ _ _
  · exact hP.checked _ _ (hP.ofBase h _ _ _)

section
variable (hrecord : ∀ objectOf r, (∀ name s, objectOf name = some s → P s) → P (ofRecord objectOf r))
include hrecord

-- each model that is opened leaves fewer to open
theorem of_objectOf (c : Catalog) (seen : List String) (name : String) (s : Schema)
    (h : Schema.objectOf c seen name = some s) : P s := by
  induction hk : (c.unseen seen).length using Nat.strongRecOn generalizing seen name s with
  | ind k ih =>
    cases ho : c.open? seen name with
    | none =>
      rw [objectOf_of_seen ho] at h
      cases h
    | some r =>
      rw [objectOf_of_open? ho] at h
      cases h
      have hlt := Catalog.length_unseen_lt ho
      exact hrecord _ r fun inside t ht => ih _ (hk ▸ hlt) (name :: seen) inside t ht rfl

theorem ofModel (hP : Inherits P) (c : Catalog) (name : String) : P (ofModel c name) := by
  unfold Schema.ofModel
  cases h : Schema.objectOf c [] name with
  | none => exact hP.other _
  | some s => exact of_objectOf hrecord c [] name s h

/-- All schemas that are read have the property, if those that are given do. -/
theorem ofSource (hP : Inherits P) {c : Catalog} {role : String} {source : Source} {s : Schema}
    (hs : ∀ given, source = .schema given → P given) (h : ofSource c role source = .ok s) :
    P s := by
  unfold Schema.ofSource at h
  split at h
  · cases h
    exact hs _ rfl
  · cases h
    exact ofModel hrecord hP c _
  · split at h
    · cases h
      exact hP.ofMarked (of_objectOf hrecord c []) _ _ _
    · cases h
    · cases h
    · cases h
  · cases h

end

end Inherits
end Schema
end Procedoc
