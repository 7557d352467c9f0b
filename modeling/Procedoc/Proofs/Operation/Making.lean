import Procedoc.Proofs.Operation.Placement
import Procedoc.Schema.Restoring

/-! # Schemas that stand for a type

A schema that is built by hand may have a wrapper that wraps nothing, or an object whose fields
cannot be put together.  Every other schema stands for a type.

* `Schema.isFilled`: every wrapper wraps something.  All schemas that are read from types and models
  are so (`Schema.isFilled_ofSource`).
* `Schema.isMakeable`: the objects without a model can be put together.
* `Schema.makesField`: the schema makes a field of a record.

From these follow `Schema.exists_type` and `Schema.exists_envelope`.
-/

namespace Procedoc
set_option autoImplicit false

/-! ## Names -/

/-- Whether a name may be given to a field of a record that is put together; one that is hidden may,
and makes no field. -/
def FieldName.isLegal (config : Config) (name : String) : Bool :=
  !words.contains name && (isHidden name || (name != settings && !isTaken config name))

theorem FieldName.exists_assembled {config : Config} {name : String}
    (h : FieldName.isLegal config name = true) (isRequired : Bool) :
    ∃ standing, FieldName.assembled config isRequired name = .ok standing := by
  simp only [isLegal, Bool.and_eq_true, Bool.or_eq_true, Bool.not_eq_true', bne_iff_ne, ne_eq] at h
  obtain ⟨hword, hrest⟩ := h
  cases hh : isHidden name with
  | true =>
    refine ⟨.hidden, ?_⟩
    rw [assembled]
    simp only [hword, hh, Bool.false_eq_true, if_false, if_true]
  | false =>
    obtain ⟨hsettings, htaken⟩ := hrest.resolve_left (by simp [hh])
    refine ⟨.free, ?_⟩
    rw [assembled]
    simp only [hword, hh, hsettings, htaken, Bool.false_eq_true, if_false]

theorem Field.exists_kept? {config : Config} {f : Field TypeExpr}
    (h : FieldName.isLegal config f.name = true) : ∃ o, f.kept? config = .ok o := by
  obtain ⟨standing, hs⟩ := FieldName.exists_assembled h f.facts.fallback.isRequired
  rw [kept?, hs]
  cases standing with
  | hidden => exact ⟨_, rfl⟩
  | free | held => exact ⟨_, rfl⟩

theorem Record.exists_assemble (name : String) (doc : Option String) {config : Config}
    {fields : List (Field TypeExpr)} (h : ∀ f ∈ fields, FieldName.isLegal config f.name = true) :
    ∃ r, Record.assemble name doc config fields = .ok r := by
  obtain ⟨kept, hkept⟩ : ∃ kept, fields.filterMapM (Field.kept? config) = .ok kept := by
    induction fields with
    | nil => exact ⟨_, rfl⟩
    | cons f rest ih =>
      obtain ⟨o, ho⟩ := Field.exists_kept? (h f (.head _))
      obtain ⟨kept, hkept⟩ := ih fun g hg => h g (.tail _ hg)
      rw [List.filterMapM_cons, ho]
      cases o with
      | none => exact ⟨kept, hkept⟩
      | some g => exact ⟨g :: kept, by simp [bind, Except.bind, hkept, pure, Except.pure]⟩
  rw [assemble, hkept]
  exact ⟨_, rfl⟩

namespace Schema

/-! ## Wrappers -/

mutual
/-- Whether every wrapper in a schema wraps something. -/
def isFilled : Schema → Bool
  | text _ _ | other _ _ => true
  | wrapped _ inner _ =>
    match inner with
    | none => false
    | some s => isFilled s
  | object _ fields _ => areFilled fields

def areFilled : List (String × Schema) → Bool
  | [] => true
  | (_, s) :: rest => isFilled s && areFilled rest
end

attribute [grind =] isFilled areFilled

theorem areFilled_iff {fields : List (String × Schema)} :
    areFilled fields = true ↔ ∀ f ∈ fields, f.2.isFilled = true := by
  induction fields with
  | nil => simp [areFilled]
  | cons f rest ih => simp [areFilled, ih]

@[simp] theorem isFilled_wrap (w : Wrapper) (s : Schema) : (wrap w s).isFilled = s.isFilled := by
  rw [wrap, isFilled]

@[simp] theorem isFilled_readFrom (f : Field TypeExpr) (s : Schema) :
    (s.readFrom f).isFilled = s.isFilled := by
  cases s with
  | wrapped w inner o => cases inner <;> simp only [readFrom, isFilled]
  | _ => simp only [readFrom, isFilled]

theorem isWrapper_base : (s : Schema) → s.isFilled = true → s.base.isWrapper = false
  | text _ _, _ => rfl
  | other _ _, _ => rfl
  | object _ _ _, _ => rfl
  | wrapped _ (some s) _, h => by
    rw [base]
    rw [isFilled] at h
    exact isWrapper_base s h
  | wrapped _ none _, h => by
    rw [isFilled] at h
    cases h

theorem inherits_isFilled : Inherits fun s => s.isFilled = true where
  text _ := rfl
  other _ := rfl
  described _ _ _ _ h := by rwa [isFilled] at h ⊢
  checked s checks h := by rwa [checked, isFilled_wrap]

theorem isFilled_ofField {objectOf : String → Option Schema}
    (h : ∀ name s, objectOf name = some s → s.isFilled = true) (f : Field TypeExpr) :
    (ofField objectOf f).isFilled = true := by
  unfold ofField
  simp only [isFilled_readFrom]
  have hguarded (type : TypeExpr) (others checks : List Mark) (description : Option String) :
      (if checks.isEmpty then ofMarked objectOf type others description
        else checked (ofMarked objectOf type others description) checks).isFilled = true := by
    have htyped := inherits_isFilled.ofMarked h type others description
    split
    · exact htyped
    · rwa [checked, isFilled_wrap]
  split
  · rw [optional, isFilled_wrap]
    exact hguarded _ _ _ _
  · split
    · exact hguarded _ _ _ _
    · rw [withDefault, isFilled_wrap]
      exact hguarded _ _ _ _

/-- Only a schema that is built by hand has a wrapper that wraps nothing. -/
theorem isFilled_ofSource {c : Catalog} {role : String} {source : Source} {s : Schema}
    (hs : ∀ given, source = .schema given → given.isFilled = true)
    (h : ofSource c role source = .ok s) : s.isFilled = true := by
  refine inherits_isFilled.ofSource (fun objectOf r hobject => ?_) hs h
  rw [ofRecord, ofFields, isFilled, areFilled_iff]
  intro p hp
  rcases Entries.mem_of_mem_override hp with hp | hp
  · cases hp
  · obtain ⟨f, -, rfl⟩ := List.mem_map.mp hp
    exact isFilled_ofField hobject f

/-! ## Objects -/

/-- Whether a schema gets a default although its type has a way to make one. -/
def hasTwoFallbacks (s : Schema) : Bool :=
  match s.type with
  | .ok a => (Field.stated? "" a s.fallback).isNone
  | .error _ => false

mutual
/-- Whether the objects in a schema can be put together as far as they have no model: the names of
their fields are legal, and no field has both a default and a way to make one.  A field that was
read from a model is taken over as it is. -/
def isMakeable : Schema → Bool
  | text _ _ | other _ _ => true
  | wrapped _ inner _ =>
    match inner with
    | none => true
    | some s => isMakeable s
  | object head fields _ => head.model.isSome || areMakeable (head.config.getD []) fields

def areMakeable (config : Config) : List (String × Schema) → Bool
  | [] => true
  | (key, s) :: rest =>
    FieldName.isLegal config ((s.origin.map Field.name).getD key)
      && (s.origin.isSome || (isMakeable s && !s.hasTwoFallbacks)) && areMakeable config rest
end

attribute [grind =] isMakeable areMakeable

/-- Whether a schema makes a field. -/
def makesField (s : Schema) : Bool := s.origin.isSome || (s.isMakeable && !s.hasTwoFallbacks)

theorem exists_stated? {other : String} {type : TypeExpr} {fallback : Fallback}
    (h : (Field.stated? other type fallback).isNone = false) (name : String) :
    ∃ f, Field.stated? name type fallback = some f ∧ f.name = name := by
  unfold Field.stated? at h ⊢
  simp only at h ⊢
  split at h
  · cases h
  · rename_i hclash
    rw [if_neg hclash]
    exact ⟨_, rfl, rfl⟩

theorem exists_fieldOfType (name : String) {s : Schema} (hm : s.makesField = true)
    (h : s.isMakeable = true → ∃ a, s.type = .ok a) :
    ∃ f, fieldOfType name s s.type = .ok f ∧ f.name = name := by
  unfold fieldOfType
  cases ho : s.origin with
  | some f => exact ⟨_, rfl, rfl⟩
  | none =>
    rw [makesField, ho, Option.isSome_none, Bool.false_or, Bool.and_eq_true,
      Bool.not_eq_true'] at hm
    obtain ⟨a, ha⟩ := h hm.1
    have hone := hm.2
    rw [hasTwoFallbacks, ha] at hone
    obtain ⟨f, hf, hname⟩ := exists_stated? hone name
    exact ⟨f, by simp [ha, hf, bind, Except.bind, pure, Except.pure], hname⟩

mutual
theorem exists_type : (s : Schema) → s.isFilled = true → s.isMakeable = true →
    ∃ a, s.type = .ok a
  | text leaf _, _, _ => ⟨_, by rw [type]⟩
  | other leaf _, _, _ => ⟨_, by rw [type]⟩
  | wrapped _ none _, h, _ => by
    rw [isFilled] at h
    cases h
  | wrapped w (some s) _, h, hm => by
    rw [isFilled] at h
    rw [isMakeable] at hm
    obtain ⟨a, ha⟩ := exists_type s h hm
    rw [type, ha]
    cases w with
    | optional | default | effect => exact ⟨_, rfl⟩
  | object head fields _, h, hm => by
    rw [isFilled] at h
    rw [isMakeable] at hm
    rw [type]
    cases hmodel : head.model with
    | some name => exact ⟨_, rfl⟩
    | none =>
      rw [hmodel, Option.isSome_none, Bool.false_or] at hm
      obtain ⟨made, hmade, hlegal⟩ := exists_fieldsOf fields h hm
      obtain ⟨r, hr⟩ := Record.exists_assemble (orIfEmpty head.name "Input") head.description hlegal
      exact ⟨.record r, by simp [hmade, hr, bind, Except.bind, pure, Except.pure]⟩

theorem exists_fieldsOf {config : Config} : (fields : List (String × Schema)) →
    areFilled fields = true → areMakeable config fields = true →
    ∃ made, fieldsOf fields = .ok made ∧ ∀ f ∈ made, FieldName.isLegal config f.name = true
  | [], _, _ => ⟨[], by rw [fieldsOf], fun _ hf => absurd hf List.not_mem_nil⟩
  | (key, s) :: rest, h, hm => by
    rw [areFilled, Bool.and_eq_true] at h
    rw [areMakeable, Bool.and_eq_true, Bool.and_eq_true] at hm
    obtain ⟨⟨hlegal, hmakes⟩, hrest⟩ := hm
    obtain ⟨f, hf, hname⟩ := exists_fieldOfType ((s.origin.map Field.name).getD key) hmakes
      (exists_type s h.1)
    obtain ⟨made, hmade, hall⟩ := exists_fieldsOf rest h.2 hrest
    refine ⟨f :: made, by simp [fieldsOf, hf, hmade, bind, Except.bind, pure, Except.pure], ?_⟩
    intro g hg
    rcases List.mem_cons.mp hg with rfl | hg
    · rwa [hname]
    · exact hall g hg
end

/-! ## Sources -/

theorem hasTwoFallbacks_eq_false {s : Schema} (h : s.fallback = .required) :
    s.hasTwoFallbacks = false := by
  have hclash (made : List Value) :
      Field.clashes (.required :: made.map Fallback.made) = false := by
    simp [Field.clashes, Fallback.value?]
  unfold hasTwoFallbacks
  cases s.type with
  | error f => rfl
  | ok a => simp [Field.stated?, h, hclash]

theorem inherits_isMakeable : Inherits fun s => s.isMakeable = true ∧ s.fallback = .required where
  text _ := ⟨rfl, rfl⟩
  other _ := ⟨rfl, rfl⟩
  described _ _ _ _ h := ⟨by rw [isMakeable] at h ⊢; exact h.1, rfl⟩
  checked s checks h := ⟨by rw [checked, wrap, isMakeable]; exact h.1, rfl⟩

/-- What is read from a type makes a field, and so only a schema that is built by hand may not. -/
theorem makesField_ofSource {c : Catalog} {role : String} {source : Source} {s : Schema}
    (hs : ∀ given, source = .schema given → given.makesField = true)
    (h : ofSource c role source = .ok s) : s.makesField = true := by
  cases source with
  | schema given =>
    cases h
    exact hs _ rfl
  | type a =>
    have hgiven : ∀ given, Source.type a = .schema given →
        given.isMakeable = true ∧ given.fallback = .required := nofun
    obtain ⟨hmakeable, hrequired⟩ := inherits_isMakeable.ofSource
      (fun _ _ _ => ⟨by rw [ofRecord, ofFields, isMakeable]; rfl, rfl⟩) hgiven h
    rw [makesField, hmakeable, hasTwoFallbacks_eq_false hrequired]
    exact Bool.or_true _
  | value => cases h

theorem exists_envelope {s : Schema} (h : s.isFilled = true) (hm : s.makesField = true) :
    ∃ envelope, s.envelope = .ok envelope := by
  obtain ⟨data, hdata, hname⟩ := exists_fieldOfType "data" hm (exists_type s h)
  have hok : FieldName.isLegal [] "ok" = true := by decide +kernel
  have hlegal : FieldName.isLegal [] "data" = true := by decide +kernel
  rw [envelope, field, hdata]
  refine Record.exists_assemble envelopeName none fun f hf => ?_
  rcases List.mem_cons.mp hf with rfl | hf
  · exact hok
  · rw [List.mem_singleton.mp hf, hname]
    exact hlegal

end Schema
end Procedoc
