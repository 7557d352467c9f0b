import Procedoc.Proofs.Operation.Decoding

/-! # Models of texts that can be shown

A parameter shows the type of its field without the checks on it (`Schema.shown_ofField`), so where
it is shown, all defaults in its field decode (`Field.decodes_of_render`).  Where those in all fields
of a model decode, and nothing in the model reads as a reference, the model can be shown
(`Catalog.shows_of_decodes`). -/
namespace Procedoc
set_option autoImplicit false
open Shaping (outline outlineFields OutlinedAs outlineFields_eq_ok)

/-! ## What parameters show -/

/-- The type that a field of texts shows: its marks and those of its type, checks apart. -/
def Field.textType (f : Field TypeExpr) : TypeExpr :=
  TypeExpr.str.described ((Mark.split f.marks).2 ++ (Mark.split f.shownType.unmarked.2).2)
    f.facts.description

namespace Schema
variable {c : Catalog} {side : Side} {objectOf : String → Option Schema} {f : Field TypeExpr}

theorem shown_readFrom (f : Field TypeExpr) (s : Schema) :
    shown c side (s.readFrom f) = shown c side s := by
  cases s with
  | wrapped w inner o => rw [readFrom, shown.eq_def, shown.eq_def]
  | _ => rfl

theorem shown_wrap {w : Wrapper} (h : ∀ v, w ≠ .default (some v)) (s : Schema) :
    shown c side (wrap w s) = shown c side s := by
  rw [wrap, shown]
  cases hs : shown c side s with
  | error f => rfl
  | ok e =>
    cases w with
    | default v =>
      cases v with
      | none => rfl
      | some v => exact absurd rfl (h v)
    | _ => rfl

theorem shown_guardedField (h : (ofField objectOf f).base.kind = .string) :
    shown c side (guardedField objectOf f) = c.fragmentFor side "string" f.textType := by
  have hbase : f.shownType.unmarked.1 = .plain .str := kind_base_ofField h
  have htyped : shown c side (ofMarked objectOf f.shownType (Mark.split f.marks).2
      f.facts.description) = c.fragmentFor side "string" f.textType := by
    have hleaf : shown c side (ofBase objectOf (.plain .str)
        ((Mark.split f.marks).2 ++ (Mark.split f.shownType.unmarked.2).2) f.facts.description) =
          c.fragmentFor side "string" f.textType := rfl
    simp only [ofMarked, hbase]
    split
    · exact hleaf
    · rw [checked, shown_wrap fun v h => Wrapper.noConfusion h]
      exact hleaf
  rw [guardedField]
  split
  · exact htyped
  · rw [checked, shown_wrap fun v h => Wrapper.noConfusion h]
    exact htyped

/-- The schema of a field shows the type of its field, and the default that is the same each time. -/
theorem shown_ofField (h : (ofField objectOf f).base.kind = .string) {e : Entries Json} :
    shown c side (ofField objectOf f) = .ok e ↔ ∃ e', c.fragment side f.textType = .ok e' ∧
      match f.facts.fallback.value? with
      | some v => if v.isNull then e = e' else ∃ j, c.data v = .ok j ∧ e = Entries.put e' "default" j
      | none => e = e' := by
  have hguarded {e' : Entries Json} : shown c side (guardedField objectOf f) = .ok e' ↔
      c.fragment side f.textType = .ok e' := by
    rw [shown_guardedField h]
    exact Catalog.fragmentFor_eq_ok
  have hbare : shown c side (guardedField objectOf f) = .ok e ↔
      ∃ e', c.fragment side f.textType = .ok e' ∧ e = e' := by
    rw [hguarded]
    constructor
    · exact fun h => ⟨e, h, rfl⟩
    · rintro ⟨_, h, rfl⟩
      exact h
  rw [ofField_eq, shown_readFrom]
  cases hf : f.facts.fallback with
  | required => exact hbare
  | made v =>
    change shown c side (wrap (.default none) _) = .ok e ↔ _
    rw [shown_wrap fun v h => by cases h]
    exact hbare
  | value v =>
    simp only [Fallback.isNull, Fallback.isRequired, Fallback.value?, Bool.false_eq_true, if_false]
    split
    · rw [optional, shown_wrap fun v h => Wrapper.noConfusion h]
      exact hbare
    · rw [withDefault, wrap, shown]
      constructor
      · intro h
        obtain ⟨e', he', h⟩ := exists_of_bind_eq_ok h
        obtain ⟨j, hj, h⟩ := exists_of_bind_eq_ok h
        exact ⟨e', hguarded.mp he', j, hj, (Except.ok.inj h).symm⟩
      · rintro ⟨e', he', j, hj, rfl⟩
        rw [hguarded.mpr he']
        change (do return Entries.put e' "default" (← c.data v)) = _
        rw [hj]
        rfl

end Schema

/-! ## Fields whose defaults decode -/

/-- Whether a field is one of texts and null, and the defaults that it gives decode in a form. -/
structure Field.Decodes (c : Catalog) (form : DataForm) (f : Field TypeExpr) : Prop where
  type : f.type.IsText (Mark.Decodes c form)
  marks : ∀ m ∈ f.marks, m.Decodes c form
  fallback : f.facts.fallback.Decodes c form

theorem decodes_of_described {c : Catalog} {marks : List Mark} {description : Option String}
    {e : Entries Json}
    (h : c.fragment .input (TypeExpr.str.described marks description) = .ok e) :
    ∀ m ∈ marks, m.Decodes c {} := by
  obtain ⟨others, hmarks, hdescribed⟩ : ∃ others, (∀ m ∈ marks, m ∈ others) ∧
      TypeExpr.str.described marks description = TypeExpr.str.withMarks others := by
    cases description with
    | none => exact ⟨marks, fun _ hm => hm, rfl⟩
    | some d =>
      rw [TypeExpr.described]
      split
      · exact ⟨marks, fun _ hm => hm, rfl⟩
      · exact ⟨_, fun _ hm => List.mem_append_left _ hm, rfl⟩
  intro m hm
  have hne : others.isEmpty = false := by
    rw [← Bool.not_eq_true, List.isEmpty_iff]
    exact List.ne_nil_of_mem (hmarks m hm)
  have hwith : TypeExpr.str.withMarks others = .marked .str others := by
    rw [TypeExpr.str, TypeExpr.withMarks, hne]
    · rfl
    · exact fun _ _ h => by cases h
  rw [hdescribed, hwith] at h
  obtain ⟨o, body, ho, -, hbody, -⟩ := Catalog.fragment_flat (by trivial) h fun _ => ""
  rw [outline] at ho
  obtain ⟨s, -, ho⟩ := exists_of_bind_eq_ok ho
  cases ho
  exact Shaping.decodes_of_sketch hbody m (hmarks m hm)

theorem Field.decodes_of_render {c : Catalog} {objectOf : String → Option Schema}
    {f : Field TypeExpr} (hkind : (Schema.ofField objectOf f).base.kind = .string) {j : Json}
    (h : ((Schema.ofField objectOf f).render c .input).outcome = .ok j) (form : DataForm) :
    f.Decodes c form := by
  obtain ⟨e, he, -⟩ := Schema.render_eq_ok.mp h
  obtain ⟨e₁, hshown, -⟩ := Schema.remarked_eq_ok.mp he
  obtain ⟨e', hfragment, hdefault⟩ := (Schema.shown_ofField hkind).mp hshown
  have hothers := decodes_of_described hfragment
  have hsplit {marks : List Mark} (h : ∀ m ∈ (Mark.split marks).2, m.Decodes c {}) :
      ∀ m ∈ marks, m.Decodes c form := by
    intro m hm
    cases m with
    | field facts bounds =>
      have hother : Mark.field facts bounds ∈ (Mark.split marks).2 := by
        rw [Mark.split, List.partition_eq_filter_filter]
        exact List.mem_filter.mpr ⟨hm, rfl⟩
      exact (h _ hother).of_usual form
    | _ => trivial
  have htext : f.shownType.IsMarkedText (Mark.Decodes c form) :=
    ⟨Schema.kind_base_ofField hkind,
      hsplit fun m hm => hothers m (List.mem_append_right _ hm)⟩
  refine ⟨?_, hsplit fun m hm => hothers m (List.mem_append_left _ hm), ?_⟩
  · rw [Field.shownType] at htext
    split at htext
    · refine TypeExpr.isText_of_withoutNone (fun m hm => ?_) htext
      cases m with
      | field facts bounds => exact absurd rfl (hm facts bounds)
      | _ => trivial
    · exact htext.isText
  · refine Fallback.Decodes.of_usual (fun v hv => ?_) form
    rw [hv] at hdefault
    dsimp only at hdefault
    split at hdefault
    · rename_i hnull
      obtain rfl : v = .plain .null := by
        unfold Value.isNull at hnull
        split at hnull
        · rfl
        · cases hnull
      rw [Catalog.dataIn, Catalog.dataWith]
      exact fun h => by cases h
    · obtain ⟨j, hj, -⟩ := hdefault
      rw [Catalog.data] at hj
      rw [hj]
      exact fun h => by cases h

/-- A field of texts whose defaults decode makes a property. -/
theorem Field.Decodes.fate_sketchField {c : Catalog} {config : Config} {sealedAllowed : Bool}
    {f : Field TypeExpr} {o : Field Shape} (hf : f.Decodes c (Config.dataForm config))
    (ho : OutlinedAs sealedAllowed f o) (label : Key → String) :
    Shape.fate (Shape.sketchField c label config o) = none := by
  obtain ⟨s, hs, rfl⟩ := ho
  have hsketched := (Shape.stays_isSketched c config).outlineMarks
    (Shaping.isSketched_outline sealedAllowed f.type hf.type) hf.marks hs
  obtain ⟨e, he⟩ := hsketched label
  obtain ⟨e', he'⟩ := withDefault_isOk_iff (e := e).mpr hf.fallback
  rw [Shape.sketchField]
  dsimp only
  rw [he]
  simp only [bind, Except.bind, Shape.sketchProperty, he']
  rfl

/-! ## Models of texts -/

namespace Catalog
variable {c : Catalog} {ds : List Declaration} {es : List Enumeration} {name : String}
  {r : Record TypeExpr}

/-- A model of texts in which nothing reads as a reference can be shown if all defaults in it decode,
and inlining leaves of its schema what it shows. -/
theorem shows_of_decodes (h : Catalog.declare ds es = .ok c) (hr : c.model? name = some r)
    (hinert : r.IsInert c) (hwritable : Config.isWritable r.config = true)
    (hdefs : Entries.get? (Config.schemaEntries r.config) "$defs" = none)
    (hprops : Entries.get? (Config.schemaEntries r.config) "properties" = none)
    (hdecodes : ∀ f ∈ r.fields, f.Decodes c (Config.dataForm r.config)) :
    ∃ os Δ s env ps shown,
      outlineFields (Config.allowsSealed r.config) r.fields = .ok os ∧
      ((Schema.ofModel c name).render c .input).outcome = .ok (.obj shown) ∧
      Shows c Δ (outlined r os) s env ps shown := by
  have ht : r.IsTextual := fun f hf =>
    TypeExpr.IsText.mono (fun _ _ => trivial) f.type (hdecodes f hf).type
  have hR : c.Region c.Shown (· = name) fun _ => 0 := by
    refine region_of_isTextual ?_ hr ht
    rintro e ⟨en, hen, -⟩
    rw [hen]
    rfl
  obtain ⟨-, os, -, hos, -⟩ := lone_model h hr ht
  obtain ⟨l, hl, hstands⟩ := hR.stands_model h rfl hr hos 0
  have hfit := hR.fit_of_isInert h (fun n hn => ⟨r, hn ▸ hr, hinert⟩) 0
  have hdescribes : ∀ o q, c.outlines c.Shown (· = name) o = some (.record q) →
      Describes c q := by
    intro o q ho
    obtain ⟨n, r', os', -, hn, hr', hos', rfl⟩ := outlines_eq_record ho
    rw [show n = name from hn] at hr'
    obtain rfl := Option.some.inj (hr.symm.trans hr')
    refine ⟨fun label => fate_sketchFields_eq_none.mpr ?_, hwritable⟩
    exact forall_of_forall₂ (outlineFields_eq_ok.mp hos')
      (P := fun f => f.Decodes c (Config.dataForm r.config)) hdecodes
      fun f o hfo hf => hf.fate_sketchField hfo label
  obtain ⟨s, env, ps, e, shown, he, hj, hshows⟩ := hstands.shows hfit hdescribes hdefs hprops
  refine ⟨os, _, s, env, ps, shown, hos, ?_, hshows⟩
  rw [Schema.ofModel_eq hr, Schema.render_object (Schema.type_headOf _), name_of_model? hr]
  exact ⟨e, (fragment_eq_ok_of_layOut hl).mpr he, hj⟩

end Catalog

end Procedoc
