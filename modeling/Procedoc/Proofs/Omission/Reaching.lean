import Mathlib.Data.Finset.Card
import Mathlib.Data.List.Dedup
import Mathlib.Logic.Relation
import Procedoc.Proofs.Rendering.Completing
import Procedoc.Proofs.Shaping.Declaring
import Procedoc.Proofs.Shaping.Inert
import Procedoc.Rendering

/-! # Models that a model leads to

A model names the models in the types of its fields, and leads to all that are named from there on.
Where none of these leads back to itself, the number of models that it leads to ranks it
(`Catalog.reach_lt`), and they make a region (`Catalog.region_of_presents`). -/
namespace Procedoc
set_option autoImplicit false

/-! ## Names in types -/

namespace TypeExpr

mutual
/-- The models and enumerations in a type, those of a record that was put together apart. -/
def owners : TypeExpr → List Owner
  | plain _ | literal _ | record _ => []
  | model name => [.model name]
  | enumeration name => [.enumeration name]
  | container _ a | marked a _ => owners a
  | tuple types | union _ types => ownersOfAll types
  | dict k v => owners k ++ owners v

def ownersOfAll : List TypeExpr → List Owner
  | [] => []
  | a :: rest => owners a ++ ownersOfAll rest
end

variable {c : Catalog} {E P : String → Prop}

mutual
theorem within_of_owners : (a : TypeExpr) → a.IsInert c →
    (∀ e, Owner.enumeration e ∈ a.owners → E e) → (∀ m, Owner.model m ∈ a.owners → P m) →
    a.Within E P
  | .plain _, _, _, _ | .literal _, _, _, _ => by rw [Within]; trivial
  | .model name, _, _, hm => by
    rw [Within]
    exact hm name (List.mem_singleton.mpr rfl)
  | .enumeration name, _, he, _ => by
    rw [Within]
    exact he name (List.mem_singleton.mpr rfl)
  | .container _ a, ha, he, hm => by
    rw [IsInert] at ha
    rw [owners] at he hm
    rw [Within]
    exact within_of_owners a ha he hm
  | .marked a _, ha, he, hm => by
    rw [IsInert] at ha
    rw [owners] at he hm
    rw [Within]
    exact within_of_owners a ha.1 he hm
  | .tuple types, ha, he, hm | .union _ types, ha, he, hm => by
    rw [IsInert] at ha
    rw [owners] at he hm
    rw [Within]
    exact allWithin_of_owners types ha he hm
  | .dict k v, ha, he, hm => by
    rw [IsInert] at ha
    rw [owners] at he hm
    rw [Within]
    exact ⟨within_of_owners k ha.1 (fun e h => he e (List.mem_append_left _ h))
        fun m h => hm m (List.mem_append_left _ h),
      within_of_owners v ha.2 (fun e h => he e (List.mem_append_right _ h))
        fun m h => hm m (List.mem_append_right _ h)⟩
  | .record _, ha, _, _ => by
    rw [IsInert] at ha
    exact ha.elim

theorem allWithin_of_owners : (types : List TypeExpr) → AllInert c types →
    (∀ e, Owner.enumeration e ∈ ownersOfAll types → E e) →
    (∀ m, Owner.model m ∈ ownersOfAll types → P m) → AllWithin E P types
  | [], _, _, _ => by rw [AllWithin]; trivial
  | a :: rest, ha, he, hm => by
    rw [AllInert] at ha
    rw [ownersOfAll] at he hm
    rw [AllWithin]
    exact ⟨within_of_owners a ha.1 (fun e h => he e (List.mem_append_left _ h))
        fun m h => hm m (List.mem_append_left _ h),
      allWithin_of_owners rest ha.2 (fun e h => he e (List.mem_append_right _ h))
        fun m h => hm m (List.mem_append_right _ h)⟩
end

end TypeExpr

/-! ## Models of which nothing reads as a reference -/

/-- Whether nothing that is written in a field, or in the enumerations of its type, reads as a
reference. -/
structure Field.IsInert (c : Catalog) (config : Config) (f : Field TypeExpr) : Prop where
  type : f.type.IsInert c
  marks : ∀ m ∈ f.marks, m.IsInert c
  notes : InertNotes f.facts.notes
  fallback : InertFallback c f.facts.fallback
  name : Silent (propertyName .input config f)
  title : Silent (Text.label (propertyName .input config f))
  enumerations : ∀ e, Owner.enumeration e ∈ f.type.owners →
    ∃ en, c.enumeration? e = some en ∧ Inert (.obj en.definition)

theorem Field.IsInert.of_bare {c : Catalog} {name : String} {type : TypeExpr} {marks : List Mark}
    (ht : type.IsInert c) (hm : ∀ m ∈ marks, m.IsInert c)
    (he : ∀ e, Owner.enumeration e ∉ type.owners) (hn : Silent name)
    (hl : Silent (Text.label name)) : Field.IsInert c [] { name, type, marks } where
  type := ht
  marks := hm
  notes := ⟨fun _ hp => absurd hp List.not_mem_nil, fun _ hp => absurd hp List.not_mem_nil⟩
  fallback := nofun
  name := hn
  title := hl
  enumerations e h := absurd h (he e)

/-- Whether nothing that is written in a record reads as a reference, and it is documented for the
side that is asked for. -/
structure Record.IsInert (c : Catalog) (r : Record TypeExpr) : Prop where
  side : Shape.sideIn r.config .input = .input
  config : InertConfig r.config
  name : Silent r.name
  doc : ∀ d, Text.describedBy r.doc = some d → Silent d
  fields : ∀ f ∈ r.fields, f.IsInert c r.config

namespace Catalog
variable {c : Catalog} {name other : String}

/-- Whether a model has a field of a type with the other model in it. -/
def Names (c : Catalog) (name other : String) : Prop :=
  ∃ r, c.model? name = some r ∧ ∃ f ∈ r.fields, Owner.model other ∈ f.type.owners

/-- Whether a model is the other one, or names a model that leads to it. -/
def Leads (c : Catalog) : String → String → Prop := Relation.ReflTransGen c.Names

theorem name_of_model? {r : Record TypeExpr} (h : c.model? name = some r) : r.name = name := by
  simpa using List.find?_some h

/-- Whether an enumeration is declared and nothing in it reads as a reference. -/
def Shown (c : Catalog) (e : String) : Prop :=
  ∃ en, c.enumeration? e = some en ∧ Inert (.obj en.definition)

theorem Region.below {E S : String → Prop} {rank : String → Nat} (hR : c.Region E S rank)
    (k : Nat) : c.Region E (Below S rank k) rank where
  declared := hR.declared
  within n hn := by
    obtain ⟨r, hr, hwithin⟩ := hR.within n hn.1
    refine ⟨r, hr, fun f hf => (hwithin f hf).mono (fun m hm => ?_) f.type⟩
    have := hn.2
    exact ⟨⟨hm.1, by omega⟩, hm.2⟩

end Catalog
end Procedoc
