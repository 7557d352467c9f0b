import Procedoc.Proofs.Inlining.SelfContained
import Procedoc.Proofs.Operation.Rendered
import Procedoc.Proofs.Rendering.Bounded

/-! # What is told of a field

A parameter writes what is said about its field over the schema of the type, and a property has rules
of its own for this.  Where no text is empty and no function adds entries, both write the same
(`Facts.IsTold.remarks_eq`).  `Field.IsTold` is when all of a field comes out alike: what a parameter
shows of it (`Field.IsTold.exists_shown`) is what its property shows (`Field.IsTold.get?_property`),
but for the title that a property has from its name (`Facts.equal_untitled`). -/
namespace Procedoc
set_option autoImplicit false
open ExceptT (result_bind)

/-! ## What facts add to a schema -/

/-- Whether parameters show all that facts say: no text and no list is empty, no function adds
entries, and no entries are added as definitions. -/
structure Facts.IsTold (f : Facts) : Prop where
  title : f.title ≠ some ""
  description : f.description ≠ some ""
  examples : f.examples ≠ some []
  reason : f.deprecated ≠ some (.reason "")
  function : f.extra ≠ some .hook
  definitions : ∀ e, f.extra = some (.entries e) → Entries.get? e "$defs" = none

namespace Facts

/-- What facts write over a schema, in the end. -/
def told (f : Facts) : Entries Json := Entries.override f.notes.updates f.notes.added

theorem keys_updates (f : Facts) :
    (Entries.keys f.notes.updates).Sublist ["title", "description", "examples", "deprecated"] := by
  cases ht : f.title <;> cases hd : f.description <;> cases he : f.examples <;>
    cases hp : f.deprecated.any Deprecation.holds <;>
      simp [notes, Entries.keys, ht, hd, he, hp]

theorem nodup_keys_updates (f : Facts) : (Entries.keys f.notes.updates).Nodup :=
  (by decide : ["title", "description", "examples", "deprecated"].Nodup).sublist f.keys_updates

theorem nodup_keys_told (f : Facts) : (Entries.keys f.told).Nodup :=
  Entries.nodup_keys_override f.nodup_keys_updates _

theorem added_notes (f : Facts) : f.notes.added =
    match f.extra with
    | some (.entries e) => e
    | some .hook => [("x-callable", .bool true)]
    | none => [] := by
  rw [notes, Notes.added]
  rcases f.extra with _ | e | _
  · rfl
  · cases e <;> rfl
  · rfl

theorem toList_text (key : String) : (text : Option String) → text ≠ some "" →
    (match text with
      | some t => if t.isEmpty then [] else [(key, Json.str t)]
      | none => []) = (text.map fun t => (key, Json.str t)).toList
  | none, _ => rfl
  | some t, h => by
    have hne : t.isEmpty = false := by
      rw [← Bool.not_eq_true, String.isEmpty_iff]
      exact fun ht => h (congrArg some ht)
    simp [hne]

theorem toList_examples : (examples : Option (List Json)) → examples ≠ some [] →
    (match examples with
      | some (e :: es) => [("examples", Json.arr (e :: es))]
      | _ => []) = (examples.map fun es => ("examples", Json.arr es)).toList
  | none, _ | some (_ :: _), _ => rfl
  | some [], h => absurd rfl h

theorem toList_deprecated : (deprecated : Option Deprecation) → deprecated ≠ some (.reason "") →
    (match deprecated with
      | some (.flag true) => [("deprecated", Json.bool true)]
      | some (.reason r) => if r.isEmpty then [] else [("deprecated", Json.bool true)]
      | _ => []) = (if deprecated.any Deprecation.holds then some ("deprecated", Json.bool true)
        else none).toList
  | none, _ | some (.flag true), _ | some (.flag false), _ => rfl
  | some (.reason r), h => by
    have hne : r.isEmpty = false := by
      rw [← Bool.not_eq_true, String.isEmpty_iff]
      rintro rfl
      exact h rfl
    simp [hne, Deprecation.holds]

/-- Parameters add what properties add. -/
theorem IsTold.remarks_eq {f : Facts} (h : f.IsTold) : f.remarks = f.told := by
  have hall : ∀ a b c d : Option (String × Json), [a, b, c, d].filterMap id =
      a.toList ++ b.toList ++ c.toList ++ d.toList := by
    intro a b c d
    cases a <;> cases b <;> cases c <;> cases d <;> rfl
  have hown := congrArg₂ (· ++ ·) (congrArg₂ (· ++ ·) (congrArg₂ (· ++ ·)
    (toList_text "title" _ h.title) (toList_text "description" _ h.description))
    (toList_examples _ h.examples)) (toList_deprecated _ h.reason)
  beta_reduce at hown
  rw [told, added_notes, notes, hall, ← hown, remarks]
  cases hextra : f.extra with
  | none => rfl
  | some extra =>
    cases extra with
    | entries e => rfl
    | hook => exact absurd hextra h.function

theorem description_mem_told (f : Facts) (h : f.description.isSome) :
    "description" ∈ Entries.keys f.told := by
  obtain ⟨d, hd⟩ := Option.isSome_iff_exists.mp h
  rw [told, Entries.keys_override]
  refine List.mem_append_left _ (Entries.mem_keys_of_mem (p := ("description", .str d)) ?_)
  simp [notes, hd]

theorem get?_onto (f : Facts) (e : Entries Json) (k : String) :
    Entries.get? (f.notes.onto e) k = (Entries.get? f.told k).or (Entries.get? e k) := by
  rw [Notes.onto, Entries.get?_override_override _ f.nodup_keys_updates, ← told,
    Entries.get?_override _ f.nodup_keys_told]

theorem IsTold.get?_defs {f : Facts} (h : f.IsTold) : Entries.get? f.told "$defs" = none := by
  have hadded : "$defs" ∉ Entries.keys f.notes.added := by
    rw [← Entries.get?_eq_none_iff, added_notes]
    cases hextra : f.extra with
    | none => rfl
    | some extra =>
      cases extra with
      | entries e => exact h.definitions e hextra
      | hook => exact absurd hextra h.function
  rw [told, Entries.get?_override_of_notMem hadded, Entries.get?_eq_none_iff]
  exact fun hm => absurd (f.keys_updates.subset hm) (by decide)

/-- A schema without the title that comes from the name of a property. -/
def untitled (f : Facts) (e : Entries Json) : Entries Json :=
  if Entries.has f.told "title" then e else Entries.without e "title"

theorem get?_untitled (f : Facts) (e : Entries Json) (k : String) : Entries.get? (f.untitled e) k =
    if k = "title" ∧ Entries.has f.told "title" = false then none else Entries.get? e k := by
  rw [untitled]
  cases Entries.has f.told "title" with
  | true => simp
  | false => simp [Entries.get?_without]

theorem inert_untitled (f : Facts) {e : Entries Json} (h : Inert (.obj e)) :
    Inert (.obj (f.untitled e)) := by
  rw [untitled]
  split
  · exact h
  · exact citesOnly_filter h _

end Facts

/-! ## Defaults that are shown -/

/-- The entries for the default that is the same each time, if it has a form as data. -/
def Fallback.shownDefault (c : Catalog) (form : DataForm) (f : Fallback) : Entries Json :=
  match f.value? with
  | some v =>
    match c.dataIn form v with
    | .ok j => [("default", j)]
    | .error _ => []
  | none => []

theorem Fallback.shownDefault_cases (c : Catalog) (form : DataForm) (f : Fallback) :
    f.shownDefault c form = [] ∨
      ∃ v j, f.value? = some v ∧ c.dataIn form v = .ok j ∧ f.shownDefault c form = [("default", j)] := by
  rw [shownDefault]
  cases hv : f.value? with
  | none => exact .inl rfl
  | some v =>
    dsimp only
    cases hj : c.dataIn form v with
    | error fault => exact .inl rfl
    | ok j => exact .inr ⟨v, j, rfl, hj, rfl⟩

theorem withDefault_eq_ok {c : Catalog} {config : Config} {f : Fallback} {e e₁ : Entries Json}
    (h : (withDefault c config f e).outcome = .ok e₁) :
    e₁ = Entries.override e (f.shownDefault c (Config.dataForm config)) := by
  rw [withDefault] at h
  rw [Fallback.shownDefault]
  cases hv : f.value? with
  | none =>
    rw [hv] at h
    exact (Except.ok.inj h).symm
  | some v =>
    rw [hv] at h
    dsimp only at h ⊢
    cases hj : c.dataIn (Config.dataForm config) v with
    | ok j =>
      rw [writtenData, hj] at h
      exact (Except.ok.inj h).symm
    | error fault =>
      rw [writtenData, hj] at h
      cases fault <;> first | exact (Except.ok.inj h).symm | cases h

theorem Schema.shown_ofField_eq_ok {c : Catalog} {objectOf : String → Option Schema}
    {f : Field TypeExpr} (h : (ofField objectOf f).base.kind = .string)
    (hnull : f.facts.fallback.isNull = false) {e : Entries Json}
    (he : shown c .input (ofField objectOf f) = .ok e) :
    ∃ e', c.fragment .input f.textType = .ok e' ∧
      e = Entries.override e' (f.facts.fallback.shownDefault c {}) := by
  obtain ⟨e', hfragment, hdefault⟩ := (shown_ofField h).mp he
  refine ⟨e', hfragment, ?_⟩
  rw [Fallback.shownDefault]
  cases hv : f.facts.fallback.value? with
  | none =>
    rw [hv] at hdefault
    exact hdefault
  | some v =>
    have hvalue : v.isNull = false := by
      cases hf : f.facts.fallback with
      | value v' =>
        rw [hf] at hv hnull
        cases hv
        exact hnull
      | _ =>
        rw [hf] at hv
        cases hv
    rw [hv] at hdefault
    dsimp only at hdefault
    rw [hvalue] at hdefault
    obtain ⟨j, hj, rfl⟩ := hdefault
    dsimp only
    rw [Catalog.data] at hj
    rw [hj]
    rfl

/-! ## Fields that are told alike -/

/-- Whether a parameter shows all that a property says of a field of texts: the field has no check, the
default is not null and has one form as data, and nothing in it reads as a reference. -/
structure Field.IsTold (c : Catalog) (config : Config) (f : Field TypeExpr) : Prop where
  unmarked : ∀ base marks, f.type ≠ .marked base marks
  unchecked : (Mark.split f.marks).1 = []
  given : f.facts.fallback.isNull = false
  usual : f.facts.fallback.shownDefault c (Config.dataForm config) = f.facts.fallback.shownDefault c {}
  facts : f.facts.IsTold
  inert : f.IsInert c config

section Told
variable {c : Catalog} {config : Config} {f : Field TypeExpr} {bounds : List Bound}

theorem Field.IsTold.type_eq (hf : f.IsTold c config) {objectOf : String → Option Schema}
    (h : (Schema.ofField objectOf f).base.kind = .string) : f.type = .plain .str := by
  have hbase := Schema.kind_base_ofField h
  rw [Field.shownType, hf.given, if_neg (by decide)] at hbase
  have hunmarked := hf.unmarked
  cases htype : f.type with
  | marked base marks => exact absurd htype (hunmarked base marks)
  | _ =>
    rw [htype] at hbase
    exact hbase

theorem Mark.split_bounds (bounds : List Bound) :
    Mark.split (bounds.map Mark.bound) = ([], bounds.map Mark.bound) := by
  rw [Mark.split, List.partition_eq_filter_filter, List.filter_eq_nil_iff.mpr,
    List.filter_eq_self.mpr]
  all_goals
    intro m hm
    obtain ⟨b, -, rfl⟩ := List.mem_map.mp hm
    simp [Mark.isCheck]

theorem Mark.inert_bounds (h : ∀ m ∈ bounds.map Mark.bound, m.IsInert c) : InertBounds bounds :=
  fun b hb => h (.bound b) (List.mem_map_of_mem hb)

theorem Field.IsTold.overlay_told (hf : f.IsTold c config) : Overlay f.facts.told := by
  intro p hp
  rcases Entries.mem_of_mem_override hp with hp | hp
  · exact hf.inert.notes.1 p hp
  · exact hf.inert.notes.2 p hp

theorem Field.IsTold.inert_description (hf : f.IsTold c config) :
    ∀ d, f.facts.description = some d → Inert (.str d) := by
  intro d hd
  refine (hf.inert.notes.1 ("description", .str d) ?_).2
  simp [Facts.notes, hd]

theorem Fallback.overlay_shownDefault {fallback : Fallback} (h : InertFallback c fallback)
    (form : DataForm) : Overlay (fallback.shownDefault c form) := by
  intro p hp
  rcases fallback.shownDefault_cases c form with hd | ⟨v, j, hv, hj, hd⟩
  · rw [hd] at hp
    cases hp
  · rw [hd] at hp
    rw [List.mem_singleton.mp hp]
    exact ⟨(by decide : "default" ≠ "$ref"), h v hv form j hj⟩

theorem Fallback.nodup_keys_shownDefault (fallback : Fallback) (form : DataForm) :
    (Entries.keys (fallback.shownDefault c form)).Nodup := by
  rcases fallback.shownDefault_cases c form with hd | ⟨v, j, -, -, hd⟩
  · rw [hd]
    exact List.nodup_nil
  · rw [hd]
    exact List.nodup_singleton _

theorem Fallback.get?_shownDefault_of_ne (fallback : Fallback) (form : DataForm) {k : String}
    (hk : k ≠ "default") : Entries.get? (fallback.shownDefault c form) k = none := by
  rcases fallback.shownDefault_cases c form with hd | ⟨v, j, -, -, hd⟩
  · rw [hd]
    rfl
  · rw [hd]
    exact if_neg (Ne.symm hk)

theorem inlined_of_inert {e : Entries Json} (he : Inert (.obj e))
    (hdefs : Entries.get? e "$defs" = none) : (inlined e).outcome = .ok (.obj e) := by
  have hbrings : Brings e [] := ⟨.inl ⟨hdefs, rfl⟩, by simp⟩
  rw [inlined_of_brings hbrings, Entries.without_of_notMem (Entries.get?_eq_none_iff.mp hdefs),
    expand_of_selfContained [] _ (selfContained_of_inert he)]

theorem Field.IsTold.exists_shown (hf : f.IsTold c config) (hmarks : f.marks = bounds.map Mark.bound)
    {objectOf : String → Option Schema} (hkind : (Schema.ofField objectOf f).base.kind = .string)
    {j : Json} (hj : ((Schema.ofField objectOf f).render c .input).outcome = .ok j)
    {label : Key → String} {e₀ : Entries Json}
    (h₀ : (Shape.boundText bounds).sketch c label [] = .ok e₀)
    (hkeys : ∀ k ∉ boundKeys, Entries.get? e₀ k = none) :
    ∃ shown, j = .obj shown ∧ Inert (.obj shown) ∧ ∀ k, Entries.get? shown k =
      (Entries.get? f.facts.told k).or ((Entries.get? (f.facts.fallback.shownDefault c {}) k).or
        ((Entries.get? e₀ k).map (Json.sortedWithin (Json.keepsOrder k)))) := by
  obtain ⟨e, he, hinlined⟩ := Schema.render_eq_ok.mp hj
  -- the schema is that of the type, with the default and all that is said about the field over it
  obtain ⟨e₁, he₁, rfl⟩ := Schema.remarked_eq_ok.mp he
  rw [Schema.origin_ofField, Option.map_some, Option.getD_some, hf.facts.remarks_eq] at hinlined
  obtain ⟨e', hfragment, rfl⟩ := Schema.shown_ofField_eq_ok hkind hf.given he₁
  have htype : f.textType =
      TypeExpr.str.described (bounds.map Mark.bound) f.facts.description := by
    rw [Field.textType, Field.shownType, hf.given, if_neg (by decide), hf.type_eq hkind, hmarks,
      Mark.split_bounds]
    exact congrArg (TypeExpr.str.described · _) (List.append_nil _)
  rw [htype] at hfragment
  obtain ⟨body, hbody, rfl, hsame⟩ := Catalog.fragment_described
    (Mark.inert_bounds (hmarks ▸ hf.inert.marks)) hf.inert_description hfragment h₀
  have hsorted : Inert (.obj (Json.obj body).sorted.entries) := citesOnly_sortedWithin false hbody
  have hinert := citesOnly_override (citesOnly_override hsorted
    (Fallback.overlay_shownDefault hf.inert.fallback {})) hf.overlay_told
  have hget (k : String) : Entries.get? (Entries.override (Entries.override
      (Json.obj body).sorted.entries (f.facts.fallback.shownDefault c {})) f.facts.told) k =
      (Entries.get? f.facts.told k).or ((Entries.get? (f.facts.fallback.shownDefault c {}) k).or
        ((Entries.get? e₀ k).map (Json.sortedWithin (Json.keepsOrder k)))) := by
    rw [Entries.get?_override _ f.facts.nodup_keys_told,
      Entries.get?_override _ (Fallback.nodup_keys_shownDefault _ _), Json.sorted,
      Json.get?_entries_sortedWithin false (citesOnly_obj.mp hbody).1]
    cases htold : Entries.get? f.facts.told k with
    | some v => rfl
    | none =>
      rw [hsame k fun hk => ?_]
      rw [← Option.not_isSome_iff_eq_none]
      intro hd
      exact Entries.get?_eq_none_iff.mp htold (hk ▸ f.facts.description_mem_told hd)
  have hdefs := hget "$defs"
  rw [hf.facts.get?_defs, hkeys "$defs" (by decide),
    Fallback.get?_shownDefault_of_ne _ _ (by decide)] at hdefs
  rw [inlined_of_inert hinert hdefs] at hinlined
  exact ⟨_, (Except.ok.inj hinlined).symm, hinert, hget⟩

/-- The property that a field whose type refers to nothing makes by itself. -/
theorem Shape.writeField_eq_ok {o : Field Shape} (hside : Shape.sideIn config .input = .input)
    (hagrees : o.type.Agrees .nothing) {p : Property}
    (hp : (writeFields c .input config [o]).result {} = (.ok [p], {})) {label : Key → String}
    {e₀ : Entries Json} (h₀ : o.type.sketch c label config = .ok e₀) :
    p.name = propertyName .input config o ∧ ∃ e₁,
      (withDefault c config o.facts.fallback e₀).outcome = .ok e₁ ∧
        (Writing.withoutEchoes (if o.type.wantsTitle && !Entries.has (o.facts.notes.onto e₁) "title"
          then Entries.put (o.facts.notes.onto e₁) "title" (.str (Text.label p.name))
          else o.facts.notes.onto e₁)).result {} = (.ok p.schema, {}) := by
  rw [writeFields, hside, result_bind, draws_write hside o.type hagrees {}, h₀] at hp
  dsimp only at hp
  rw [result_bind, propertyEntries, result_bind, still_withDefault c config _ _ {}] at hp
  cases hd : (withDefault c config o.facts.fallback e₀).outcome with
  | error obstacle =>
    rw [hd] at hp
    cases hp
  | ok e₁ =>
    rw [hd] at hp
    dsimp only at hp
    split at hp
    · rename_i schema s hw
      rw [writeFields] at hp
      cases hp
      exact ⟨rfl, e₁, rfl, hw⟩
    · cases hp

theorem Writing.withoutEchoes_eq {x e : Entries Json} {s : Sheet} (hx : Inert (.obj x))
    (h : (Writing.withoutEchoes x).result {} = (.ok e, s)) : e = x := by
  rw [withoutEchoes, get?_of_overlay (overlay_of_inert hx)] at h
  cases h
  rfl

theorem Field.IsTold.get?_property (hf : f.IsTold c config) (hbounds : InertBounds bounds)
    (hside : Shape.sideIn config .input = .input) (hmin : Config.minLength? config = none)
    (hmax : Config.maxLength? config = none) {p : Property}
    (hp : (Shape.writeFields c .input config
      [{ f with type := Shape.boundText bounds, marks := [] }]).result {} = (.ok [p], {}))
    {label : Key → String} {e₀ : Entries Json}
    (h₀ : (Shape.boundText bounds).sketch c label [] = .ok e₀) :
    p.name = propertyName .input config f ∧ Inert (.obj p.schema) ∧ ∀ k, Entries.get? p.schema k =
      (Entries.get? f.facts.told k).or ((Entries.get? (f.facts.fallback.shownDefault c {}) k).or
        ((Entries.get? e₀ k).or (if k = "title" then some (.str (Text.label p.name)) else none))) := by
  have htext := Shape.isBoundText_boundText bounds
  have hsketch : (Shape.boundText bounds).sketch c label config = .ok e₀ := by
    rw [htext.sketch_eq hmin hmax, h₀]
  obtain ⟨hname, e₁, he₁, hschema⟩ := Shape.writeField_eq_ok hside htext.agrees hp hsketch
  obtain rfl := withDefault_eq_ok he₁
  obtain ⟨e, he⟩ : ∃ e, e = f.facts.notes.onto
      (Entries.override e₀ (f.facts.fallback.shownDefault c {})) := ⟨_, rfl⟩
  dsimp only at hschema
  rw [hf.usual, ← he, htext.wantsTitle, Bool.true_and] at hschema
  have hinert : Inert (.obj e) := by
    refine he ▸ citesOnly_onto hf.inert.notes (citesOnly_override ?_
      (Fallback.overlay_shownDefault hf.inert.fallback {}))
    exact Shape.inert_sketch (Shape.inert_boundText hbounds)
      (by rw [htext.folded, Shape.refs_eq_nil htext.agrees]) h₀
  have hget (k : String) : Entries.get? e k = (Entries.get? f.facts.told k).or
      ((Entries.get? (f.facts.fallback.shownDefault c {}) k).or (Entries.get? e₀ k)) := by
    rw [he, Facts.get?_onto, Entries.get?_override _ (Fallback.nodup_keys_shownDefault _ _)]
  have hlabel : Silent (Text.label p.name) := hname ▸ hf.inert.title
  obtain ⟨hcites, htitled⟩ : Inert (.obj p.schema) ∧ ∀ k, Entries.get? p.schema k =
      (Entries.get? e k).or (if k = "title" then some (.str (Text.label p.name)) else none) := by
    cases htitle : Entries.get? e "title" with
    | some v =>
      rw [Entries.has, htitle] at hschema
      obtain rfl := Writing.withoutEchoes_eq hinert hschema
      refine ⟨hinert, fun k => ?_⟩
      by_cases hk : k = "title"
      · rw [hk, htitle]
        rfl
      · rw [if_neg hk, Option.or_none]
    | none =>
      rw [Entries.has, htitle] at hschema
      have hput : Inert (.obj (Entries.put e "title" (.str (Text.label p.name)))) :=
        citesOnly_put hinert (by decide) (fun h => absurd h (by decide)) (.of_inert (inert_str hlabel))
      have hp := Writing.withoutEchoes_eq hput hschema
      rw [hp]
      refine ⟨hput, fun k => ?_⟩
      rw [Entries.get?_put]
      by_cases hk : k = "title"
      · rw [hk, htitle, if_pos rfl]
        rfl
      · rw [if_neg (Ne.symm hk), if_neg hk, Option.or_none]
  refine ⟨hname, hcites, fun k => ?_⟩
  rw [htitled, hget, Option.or_assoc, Option.or_assoc]

/-- Without the title that comes from its name, the schema of a property is that of the parameter,
also where its keys are in another order. -/
theorem Facts.equal_untitled {facts : Facts} {e₀ shown schema pr defaults : Entries Json} {kept : Bool}
    {label : Json} (hkeys : ∀ k ∉ boundKeys, Entries.get? e₀ k = none)
    (hdefaults : Entries.get? defaults "title" = none)
    (hshown : Inert (.obj shown)) (hschema : Inert (.obj schema))
    (hpr : Json.sortedWithin kept (.obj schema) = .obj pr)
    (hparameter : ∀ k, Entries.get? shown k = (Entries.get? facts.told k).or
      ((Entries.get? defaults k).or
        ((Entries.get? e₀ k).map (Json.sortedWithin (Json.keepsOrder k)))))
    (hproperty : ∀ k, Entries.get? schema k = (Entries.get? facts.told k).or
      ((Entries.get? defaults k).or
        ((Entries.get? e₀ k).or (if k = "title" then some label else none)))) :
    (Json.obj shown).equal (.obj (facts.untitled pr)) = true := by
  have hinert : Inert (.obj pr) := hpr ▸ citesOnly_sortedWithin kept hschema
  have hget (k : String) : Entries.get? pr k =
      (Entries.get? schema k).map (Json.sortedWithin (Json.keepsOrder k)) := by
    have h := Json.get?_entries_sortedWithin kept (citesOnly_obj.mp hschema).1 k
    rwa [hpr] at h
  have hsorted : ∀ (k : String) (v : Json), Entries.get? schema k = some v →
      Json.Alike v (Json.sortedWithin (Json.keepsOrder k) v) := fun k v hv =>
    (Json.alike_sortedWithin _ (Json.distinct_obj.mp hschema.distinct |>.2 _
      (Entries.mem_of_get? hv))).symm
  refine Json.equal_of_alike hshown.distinct (facts.inert_untitled hinert).distinct
    (Json.alike_obj.mpr fun k => ?_)
  have hp := hparameter k
  have hq := hproperty k
  rw [Facts.get?_untitled, hget]
  cases htold : Entries.get? facts.told k with
  | some v =>
    rw [htold] at hp hq
    have hhas : k = "title" → Entries.has facts.told "title" = true := by
      rintro rfl
      rw [Entries.has, htold]
      rfl
    rw [if_neg fun h => by simp [hhas h.1] at h, hp, hq]
    exact .some (hsorted k v hq)
  | none =>
    rw [htold, Option.none_or] at hp hq
    by_cases hk : k = "title"
    · subst hk
      have hhas : Entries.has facts.told "title" = false := by
        rw [Entries.has, htold]
        rfl
      rw [if_pos ⟨rfl, hhas⟩, hp, hdefaults, hkeys "title" (by decide)]
      exact .none
    · rw [if_neg hk, Option.or_none] at hq
      rw [if_neg fun h => hk h.1, hp, hq]
      cases hd : Entries.get? defaults k with
      | some d =>
        rw [hd] at hq
        exact .some (hsorted k d hq)
      | none =>
        rw [Option.none_or, Option.none_or]
        cases Entries.get? e₀ k with
        | none => exact .none
        | some v => exact .some (Json.Alike.refl _)

end Told

end Procedoc
