import Procedoc.Proofs.Operation.Texts
import Procedoc.Proofs.Reading

/-! # Models inside models

Reading a model opens the models that its fields name, those that their fields name, and so on, but
no model inside itself.  `Schema.Inside` leads from a schema to what is in it, and `Schema.Placed`
is what holds at each place: no model is open twice around it, and a field that names a model is the
object of that model or, where it is open already, the bare type.

The models that are open are those that `Schema.objectOf` has seen, so that all of this holds at
every place of an object if it holds at every place of the objects that are opened in it
(`Schema.opensModels_objectOf`). -/

namespace Procedoc
set_option autoImplicit false

/-! ## Types that name models -/

/-- Whether a type is a model, possibly with marks around it. -/
inductive TypeExpr.IsModel (name : String) : TypeExpr → Prop where
  | bare : IsModel name (model name)
  | marked (marks : List Mark) : IsModel name (marked (model name) marks)

theorem TypeExpr.IsModel.unmarked {name : String} {a : TypeExpr} (h : a.IsModel name) :
    a.unmarked.1 = model name := by
  cases h <;> rfl

theorem TypeExpr.IsModel.isNone {name : String} {a : TypeExpr} (h : a.IsModel name) :
    a.isNone = false := by
  cases h <;> rfl

theorem TypeExpr.IsModel.withoutNone {name : String} {a : TypeExpr} (h : a.IsModel name) :
    a.withoutNone = a := by
  cases h <;> rfl

/-- Whether a field is for a model: its type is the model or, where the field is null when left out,
the union of the model with null. -/
inductive Field.IsForModel (name : String) (f : Field TypeExpr) : Prop where
  | plain (h : f.type.IsModel name)
  | orNull {form : UnionForm} {a : TypeExpr} (hnull : f.facts.fallback.isNull = true)
      (ha : a.IsModel name) (h : f.type = .union form [a, .none] ∨ f.type = .union form [.none, a])

theorem Field.IsForModel.shownType {name : String} {f : Field TypeExpr} (h : f.IsForModel name) :
    f.shownType.unmarked.1 = .model name := by
  rw [Field.shownType]
  cases h with
  | plain h =>
    rw [h.withoutNone, ite_self]
    exact h.unmarked
  | @orNull form a hnull ha h =>
    have htype : f.type.withoutNone = a := by
      have hnone : TypeExpr.none.isNone = true := rfl
      rcases h with h | h <;>
        simp [h, TypeExpr.withoutNone, ha.isNone, hnone]
    rw [if_pos hnull, htype]
    exact ha.unmarked

namespace Schema

/-! ## Places in a schema -/

/-- The model whose object a schema is. -/
def model : Schema → Option String
  | object head _ _ => head.model
  | _ => none

/-- Whether a schema is at a place in another: in fields of objects and in wrappers, the models of
the objects around it the innermost first. -/
inductive Inside : Schema → List String → Schema → Prop where
  | self (s : Schema) : Inside s [] s
  | field {head : Head} {fields : List (String × Schema)} {o : Option (Field TypeExpr)}
      {key : String} {t s : Schema} {above : List String} (ht : (key, t) ∈ fields)
      (h : Inside t above s) : Inside (object head fields o) (above ++ head.model.toList) s
  | inner {w : Wrapper} {t s : Schema} {o : Option (Field TypeExpr)} {above : List String}
      (h : Inside t above s) : Inside (wrapped w (some t) o) above s

/-- Whether a schema is the object of a model: the keys are the names of the fields as inputs, and
under each of them stands what was read from the last field of that name. -/
structure IsObjectOf (s : Schema) (name : String) (r : Record TypeExpr) : Prop where
  model : s.model = some name
  keys : s.keys = (r.fields.map Field.key).eraseDups
  origins : Entries.mapValues origin s.fields =
    Entries.ofList (r.fields.map fun f => (f.key, some f))

/-- Whether a schema is a model as a type that is not opened. -/
def IsUnopened (s : Schema) (name : String) : Prop :=
  ∃ leaf o, s = other leaf o ∧ leaf.type = some (.model name)

/-- Whether models are open one in the other: none comes twice, and all are declared. -/
structure Open (c : Catalog) (above : List String) : Prop where
  nodup : above.Nodup
  declared : ∀ name ∈ above, (c.model? name).isSome

/-- What holds of a schema that is read at a place, `above` being the models open around it: no
model is open twice, an object is one of a model with all its fields, and the field of a model is
its object or, if that is open, the model as a type. -/
structure Placed (c : Catalog) (above : List String) (s : Schema) : Prop where
  isOpen : Open c (s.model.toList ++ above)
  object : s.kind = .object → ∃ name r, c.model? name = some r ∧ s.IsObjectOf name r
  closed : ∀ f name r, s.origin = some f → f.IsForModel name → c.model? name = some r →
    name ∈ above → s.base.IsUnopened name
  opened : ∀ f name r, s.origin = some f → f.IsForModel name → c.model? name = some r →
    name ∉ above → s.base.IsObjectOf name r

variable {c : Catalog} {seen : List String}

/-! ## Models that are open -/

theorem Open.nil : Open c [] := ⟨.nil, nofun⟩

theorem Open.cons {name : String} {r : Record TypeExpr} (h : Open c seen) (hs : name ∉ seen)
    (hr : c.model? name = some r) : Open c (name :: seen) :=
  ⟨List.nodup_cons.mpr ⟨hs, h.nodup⟩, List.forall_mem_cons.mpr ⟨by rw [hr]; rfl, h.declared⟩⟩

/-- Models do not nest deeper than there are some. -/
theorem Open.length_le (h : Open c seen) : seen.length ≤ c.models.length := by
  have hsub : seen ⊆ c.models.map Record.name := fun name hname => by
    obtain ⟨r, hr⟩ := Option.isSome_iff_exists.mp (h.declared name hname)
    exact List.mem_map.mpr ⟨r, List.mem_of_find?_eq_some hr, by simpa using List.find?_some hr⟩
  calc seen.length ≤ (c.models.map Record.name).length := (h.nodup.subperm hsub).length_le
    _ = c.models.length := List.length_map _

theorem open?_eq_some {name : String} {r : Record TypeExpr} :
    c.open? seen name = some r ↔ name ∉ seen ∧ c.model? name = some r := by
  by_cases hs : name ∈ seen <;> simp [Catalog.open?, hs]

theorem open?_of_mem {name : String} (h : name ∈ seen) : c.open? seen name = none := by
  simp [Catalog.open?, h]

/-! ## What is read from a field -/

/-- What does not mind where a schema was read from holds of what a field is if it holds of what its
type is. -/
theorem of_base_readFrom {P : Schema → Prop} {f : Field TypeExpr}
    (hP : ∀ s, P s → P (s.readFrom f)) {s : Schema} (h : P s.base) : P (s.readFrom f).base := by
  cases s with
  | wrapped w inner o =>
    cases inner with
    | none => exact hP _ h
    | some t => exact h
  | _ => exact hP _ h

theorem of_base_ofField {P : Schema → Prop} {objectOf : String → Option Schema}
    {f : Field TypeExpr} (hP : ∀ s, P s → P (s.readFrom f))
    (h : P (ofBase objectOf f.shownType.unmarked.1
      ((Mark.split f.marks).2 ++ (Mark.split f.shownType.unmarked.2).2) f.facts.description).base) :
    P (ofField objectOf f).base := by
  have htyped :
      P (ofMarked objectOf f.shownType (Mark.split f.marks).2 f.facts.description).base := by
    simp only [ofMarked]
    split
    · exact h
    · rwa [checked, base_wrap]
  have hguarded : P (guardedField objectOf f).base := by
    simp only [guardedField]
    split
    · exact htyped
    · rwa [checked, base_wrap]
  rw [ofField_eq]
  refine of_base_readFrom hP ?_
  split
  · rwa [optional, base_wrap]
  · split
    · exact hguarded
    · rwa [withDefault, base_wrap]

theorem IsUnopened.readFrom {s : Schema} {name : String} (f : Field TypeExpr)
    (h : s.IsUnopened name) : (s.readFrom f).IsUnopened name := by
  obtain ⟨leaf, o, rfl, hleaf⟩ := h
  exact ⟨leaf, _, rfl, hleaf⟩

theorem IsObjectOf.readFrom {s : Schema} {name : String} {r : Record TypeExpr} (f : Field TypeExpr)
    (h : s.IsObjectOf name r) : (s.readFrom f).IsObjectOf name r := by
  cases s <;> exact ⟨h.model, h.keys, h.origins⟩

theorem IsObjectOf.exists_eq {s : Schema} {name : String} {r : Record TypeExpr}
    (h : s.IsObjectOf name r) : ∃ head fields o, s = object head fields o := by
  cases s with
  | object head fields o => exact ⟨head, fields, o, rfl⟩
  | _ => exact nomatch h.model

theorem isUnopened_ofBase {objectOf : String → Option Schema} {name : String}
    (h : objectOf name = none) (marks : List Mark) (description : Option String) :
    (ofBase objectOf (.model name) marks description).base.IsUnopened name := by
  simp only [ofBase, h]
  exact ⟨_, _, rfl, rfl⟩

theorem isObjectOf_ofBase {objectOf : String → Option Schema} {name : String} {s : Schema}
    {r : Record TypeExpr} (h : objectOf name = some s) (hs : s.IsObjectOf name r)
    (marks : List Mark) (description : Option String) :
    (ofBase objectOf (.model name) marks description).base.IsObjectOf name r := by
  obtain ⟨head, fields, o, rfl⟩ := hs.exists_eq
  simp only [ofBase, h]
  split
  · split
    · exact hs
    · exact ⟨hs.model, hs.keys, hs.origins⟩
  · exact hs

theorem isObjectOf_ofRecord {objectOf : String → Option Schema} {name : String}
    {r : Record TypeExpr} (hr : c.model? name = some r) :
    (ofRecord objectOf r).IsObjectOf name r := by
  have hname : r.name = name := by simpa using List.find?_some hr
  refine ⟨congrArg some hname, ?_, ?_⟩
  · simp only [ofRecord, ofFields, Schema.keys, fields]
    rw [Entries.keys_ofList, Entries.keys, List.map_map]
    rfl
  · simp only [ofRecord, ofFields, fields]
    rw [Entries.mapValues_ofList, Entries.mapValues, List.map_map]
    congr 1
    refine List.map_congr_left fun f _ => ?_
    simp [Field.key, ofField]

/-! ## What holds everywhere -/

/-- Whether all that is in a schema is placed so, in models that are open around it. -/
def PlacedWithin (c : Catalog) (seen : List String) (s : Schema) : Prop :=
  ∀ above t, Inside s above t → Placed c (above ++ seen) t

/-- A part that is neither an object nor read from a field only stands in what is open. -/
theorem Placed.of_origin {s : Schema} (h : Open c seen) (hkind : s.kind ≠ .object)
    (ho : s.origin = none) : Placed c seen s where
  isOpen := by cases s <;> first | exact h | exact absurd rfl hkind
  object hobject := absurd hobject hkind
  closed f name r hf := by rw [ho] at hf; cases hf
  opened f name r hf := by rw [ho] at hf; cases hf

theorem placedWithin_wrap (h : Open c seen) (w : Wrapper) {s : Schema}
    (hs : PlacedWithin c seen s) : PlacedWithin c seen (wrap w s) := by
  intro above t ht
  cases ht with
  | self => exact .of_origin h (by cases w <;> exact nofun) rfl
  | inner ht => exact hs _ _ ht

theorem inherits_placedWithin (h : Open c seen) : Inherits (PlacedWithin c seen) where
  text leaf above t ht := by
    cases ht
    exact .of_origin h nofun rfl
  other leaf above t ht := by
    cases ht
    exact .of_origin h nofun rfl
  described head fields o d hs above t ht := by
    cases ht with
    | self =>
      have hself := hs [] _ (.self _)
      refine ⟨hself.isOpen, fun _ => ?_, fun f name r hf hfor hr ha => ?_,
        fun f name r hf hfor hr ha => ?_⟩
      · obtain ⟨name, r, hr, hobject⟩ := hself.object rfl
        exact ⟨name, r, hr, hobject.model, hobject.keys, hobject.origins⟩
      · obtain ⟨_, _, hcut, -⟩ := hself.closed f name r hf hfor hr ha
        cases hcut
      · have hobject := hself.opened f name r hf hfor hr ha
        exact ⟨hobject.model, hobject.keys, hobject.origins⟩
    | field hu ht => exact hs _ _ (.field hu ht)
  checked s checks hs := placedWithin_wrap h _ hs

/-- What is in a schema stays placed where the schema is read from a field, if it is what the field
is for. -/
theorem placedWithin_readFrom {s : Schema} {f : Field TypeExpr} (hs : PlacedWithin c seen s)
    (hclosed : ∀ name r, f.IsForModel name → c.model? name = some r → name ∈ seen →
      (s.readFrom f).base.IsUnopened name)
    (hopened : ∀ name r, f.IsForModel name → c.model? name = some r → name ∉ seen →
      (s.readFrom f).base.IsObjectOf name r) : PlacedWithin c seen (s.readFrom f) := by
  have hself : Placed c seen (s.readFrom f) := by
    have h := hs [] s (.self s)
    refine ⟨?_, fun hkind => ?_, fun g name r hg => ?_, fun g name r hg => ?_⟩
    · cases s <;> exact h.isOpen
    · obtain ⟨name, r, hr, hobject⟩ := h.object (by cases s <;> exact hkind)
      exact ⟨name, r, hr, hobject.readFrom f⟩
    · cases (origin_readFrom f s).symm.trans hg
      exact hclosed name r
    · cases (origin_readFrom f s).symm.trans hg
      exact hopened name r
  intro above t ht
  -- only the schema itself is read from elsewhere, what is in it stays as it is
  cases s with
  | text | other =>
    cases ht
    exact hself
  | wrapped w inner o =>
    cases ht with
    | self => exact hself
    | inner ht => exact hs _ _ (.inner ht)
  | object head fields o =>
    cases ht with
    | self => exact hself
    | field hu ht => exact hs _ _ (.field hu ht)

/-- Whether exactly the models are opened that are not open yet, and all in them is placed so. -/
structure OpensModels (c : Catalog) (seen : List String) (objectOf : String → Option Schema) :
    Prop where
  closed : ∀ name ∈ seen, objectOf name = none
  opened : ∀ name r, c.model? name = some r → name ∉ seen →
    ∃ s, objectOf name = some s ∧ s.IsObjectOf name r
  placed : ∀ name s, objectOf name = some s → PlacedWithin c seen s

section
variable {objectOf : String → Option Schema} (hopens : OpensModels c seen objectOf)
include hopens

theorem OpensModels.isUnopened {f : Field TypeExpr} {name : String} (hf : f.IsForModel name)
    (hname : name ∈ seen) : (ofField objectOf f).base.IsUnopened name := by
  refine of_base_ofField (P := (IsUnopened · name)) (fun _ => IsUnopened.readFrom f) ?_
  rw [hf.shownType]
  exact isUnopened_ofBase (hopens.closed name hname) _ _

theorem OpensModels.isObjectOf {f : Field TypeExpr} {name : String} {r : Record TypeExpr}
    (hf : f.IsForModel name) (hr : c.model? name = some r) (hname : name ∉ seen) :
    (ofField objectOf f).base.IsObjectOf name r := by
  obtain ⟨s, hs, hobject⟩ := hopens.opened name r hr hname
  refine of_base_ofField (P := (IsObjectOf · name r)) (fun _ => IsObjectOf.readFrom f) ?_
  rw [hf.shownType]
  exact isObjectOf_ofBase hs hobject _ _

theorem OpensModels.placedWithin_ofField (h : Open c seen) (f : Field TypeExpr) :
    PlacedWithin c seen (ofField objectOf f) := by
  have hguarded : PlacedWithin c seen (guardedField objectOf f) := by
    have htyped := (inherits_placedWithin h).ofMarked hopens.placed f.shownType
      (Mark.split f.marks).2 f.facts.description
    simp only [guardedField]
    split
    · exact htyped
    · exact placedWithin_wrap h _ htyped
  have hclosed name r (hf : f.IsForModel name) (_ : c.model? name = some r) (hname : name ∈ seen) :=
    hopens.isUnopened hf hname
  have hopened name r (hf : f.IsForModel name) (hr : c.model? name = some r)
      (hname : name ∉ seen) := hopens.isObjectOf hf hr hname
  rw [ofField_eq] at hclosed hopened ⊢
  refine placedWithin_readFrom ?_ hclosed hopened
  split
  · exact placedWithin_wrap h _ hguarded
  · split
    · exact hguarded
    · exact placedWithin_wrap h _ hguarded

end

theorem OpensModels.placedWithin_ofRecord {objectOf : String → Option Schema} {name : String}
    {r : Record TypeExpr} (h : Open c (name :: seen)) (hr : c.model? name = some r)
    (hopens : OpensModels c (name :: seen) objectOf) :
    PlacedWithin c seen (ofRecord objectOf r) := by
  have hobject : (ofRecord objectOf r).IsObjectOf name r := isObjectOf_ofRecord hr
  have hmodel : (ofRecord objectOf r).model = some name := hobject.model
  have horigin : (ofRecord objectOf r).origin = none := rfl
  intro above t ht
  cases ht with
  | self =>
    refine ⟨by rw [hmodel]; exact h, fun _ => ⟨name, r, hr, hobject⟩, fun f name r hf => ?_,
      fun f name r hf => ?_⟩
    · rw [horigin] at hf
      cases hf
    · rw [horigin] at hf
      cases hf
  | @field _ _ _ key u _ above hu ht =>
    obtain ⟨f, -, hf⟩ : ∃ f ∈ r.fields,
        (f.known.inputName f.name, ofField objectOf f) = (key, u) := by
      rcases Entries.mem_of_mem_override hu with hu | hu
      · cases hu
      · exact List.mem_map.mp hu
    obtain ⟨-, rfl⟩ := Prod.mk.inj hf
    have hname : some r.name = some name := hmodel
    rw [hname, List.append_assoc]
    exact hopens.placedWithin_ofField h f above t ht

/-- All in the objects of models is placed so. -/
theorem opensModels_objectOf (c : Catalog) (seen : List String) (h : Open c seen) :
    OpensModels c seen (objectOf c seen) := by
  -- each model that is opened leaves fewer to open
  induction hk : (c.unseen seen).length using Nat.strongRecOn generalizing seen with
  | ind k ih =>
    refine ⟨fun name hname => objectOf_of_seen (open?_of_mem hname), fun name r hr hname => ?_,
      fun name s hs => ?_⟩
    · have ho : c.open? seen name = some r := open?_eq_some.mpr ⟨hname, hr⟩
      exact ⟨_, objectOf_of_open? ho, isObjectOf_ofRecord hr⟩
    · cases ho : c.open? seen name with
      | none =>
        rw [objectOf_of_seen ho] at hs
        cases hs
      | some r =>
        rw [objectOf_of_open? ho] at hs
        cases hs
        obtain ⟨hname, hr⟩ := open?_eq_some.mp ho
        have hopen : Open c (name :: seen) := h.cons hname hr
        exact OpensModels.placedWithin_ofRecord hopen hr
          (ih _ (hk ▸ Catalog.length_unseen_lt ho) _ hopen rfl)

/-! ## The theorem -/

/-- A model that is read is its object, however the models name each other.  Everywhere in it objects
stand in objects no deeper than there are models, no model is open twice on the way to a place, and
the field of a model opens it exactly where it is not open around the field. -/
theorem models_open_once (c : Catalog) {name : String} {r : Record TypeExpr}
    (h : c.model? name = some r) :
    (ofModel c name).IsObjectOf name r ∧
    ∀ above s, Inside (ofModel c name) above s →
      above.length ≤ c.models.length ∧ Placed c above s := by
  have hopens : OpensModels c [] (objectOf c []) := opensModels_objectOf c [] .nil
  obtain ⟨s, hs, hobject⟩ := hopens.opened name r h List.not_mem_nil
  rw [ofModel, hs, Option.getD_some]
  refine ⟨hobject, fun above t ht => ?_⟩
  have hplaced : Placed c above t := List.append_nil above ▸ hopens.placed name s hs above t ht
  have hlength := hplaced.isOpen.length_le
  rw [List.length_append] at hlength
  exact ⟨by omega, hplaced⟩

theorem IsObjectOf.exists_field {s : Schema} {name : String} {r : Record TypeExpr}
    {f : Field TypeExpr} (h : s.IsObjectOf name r) (key : String)
    (hf : Entries.get? (Entries.ofList (r.fields.map fun f => (f.key, some f))) key =
      some (some f)) : ∃ t, t.origin = some f ∧ Inside s [name] t := by
  obtain ⟨head, fields, o, rfl⟩ := h.exists_eq
  have hmodel : head.model = some name := h.model
  rw [← h.origins, Entries.get?_mapValues, Option.map_eq_some_iff] at hf
  obtain ⟨t, ht, horigin⟩ := hf
  refine ⟨t, horigin, ?_⟩
  have hinside : Inside (object head fields o) ([] ++ head.model.toList) t :=
    .field (Entries.mem_of_get? ht) (.self t)
  rwa [hmodel] at hinside

/-- A tenant who knows another one, has a flat and may have a second one. -/
def tenant : Record TypeExpr where
  name := "Tenant"
  fields := [
    { name := "knows", type := .model "Tenant", marks := [.check .after] },
    { name := "first", type := .model "Flat" },
    { name := "second", type := .union .named [.marked (.model "Flat") [.check .after], .none],
      facts := { fallback := .value (.plain .null) } }]

/-- A flat in which tenants live. -/
def flat : Record TypeExpr where
  name := "Flat"
  fields := [{ name := "tenants", type := .container .list (.model "Tenant") },
    { name := "owner", type := .model "Tenant" }]

/-- Tenants and flats, which name each other. -/
def town : Catalog where
  models := [tenant, flat]

/-- A tenant knows one that is not opened, and both flats are. -/
theorem models_open_once_town : town.model? "Tenant" = some tenant ∧
    (∃ knows, Inside (ofModel town "Tenant") ["Tenant"] knows ∧
      knows.origin = tenant.fields[0]? ∧ knows.base.IsUnopened "Tenant") ∧
    (∃ first, Inside (ofModel town "Tenant") ["Tenant"] first ∧
      first.origin = tenant.fields[1]? ∧ first.base.IsObjectOf "Flat" flat) ∧
    ∃ second, Inside (ofModel town "Tenant") ["Tenant"] second ∧
      second.origin = tenant.fields[2]? ∧ second.base.IsObjectOf "Flat" flat := by
  have htenant : town.model? "Tenant" = some tenant := by rfl
  have hflat : town.model? "Flat" = some flat := by rfl
  obtain ⟨hobject, hplaced⟩ := models_open_once town htenant
  have hother : "Flat" ∉ ["Tenant"] := by decide
  refine ⟨htenant, ?_, ?_, ?_⟩
  · obtain ⟨knows, horigin, hknows⟩ := hobject.exists_field "knows" (by rfl)
    exact ⟨knows, hknows, horigin, (hplaced _ _ hknows).2.closed _ _ _ horigin
      (.plain .bare) htenant List.mem_cons_self⟩
  · obtain ⟨first, horigin, hfirst⟩ := hobject.exists_field "first" (by rfl)
    exact ⟨first, hfirst, horigin, (hplaced _ _ hfirst).2.opened _ _ _ horigin
      (.plain .bare) hflat hother⟩
  · obtain ⟨second, horigin, hsecond⟩ := hobject.exists_field "second" (by rfl)
    exact ⟨second, hsecond, horigin, (hplaced _ _ hsecond).2.opened _ _ _ horigin
      (.orNull rfl (.marked _) (.inl rfl)) hflat hother⟩

end Schema
end Procedoc
