import Mathlib.Data.List.Nodup
import Procedoc.Proofs.Shaping.Declaring
import Procedoc.Proofs.Rendering.Omitting
import Procedoc.Proofs.Rendering.Outcome
import Procedoc.Proofs.Shaping.Inert

/-! # Objects that lost fields

An object of a declared model without some fields stands for a record that is put together from the
others (`Schema.type_leaving`).  It is put together again just as it was declared, if its fields take
their names from the rule of the model itself and none of the names is refused. -/
namespace Procedoc
set_option autoImplicit false

/-! ## Names of declared fields -/

theorem mem_putField {fields : List (Field TypeExpr)} {f g : Field TypeExpr}
    (h : g ∈ putField fields f) : g ∈ fields ∨ g = f := by
  induction fields with
  | nil => simpa [putField] using h
  | cons k rest ih => by_cases hk : k.name = f.name <;> grind [putField]

theorem foldl_putField {fields others : List (Field TypeExpr)}
    (h : ((fields ++ others).map Field.name).Nodup) :
    others.foldl putField fields = fields ++ others := by
  have hput : ∀ (fields : List (Field TypeExpr)) f, f.name ∉ fields.map Field.name →
      putField fields f = fields ++ [f] := by
    intro fields f hf
    induction fields with
    | nil => rfl
    | cons g rest ih =>
      rw [List.map_cons, List.mem_cons, not_or] at hf
      rw [putField, if_neg (Ne.symm hf.1), ih hf.2, List.cons_append]
  induction others generalizing fields with
  | nil => rw [List.foldl_nil, List.append_nil]
  | cons f rest ih =>
    have hnot : f.name ∉ fields.map Field.name := by
      rw [List.map_append, List.map_cons] at h
      exact fun hm => List.disjoint_of_nodup_append h hm (List.mem_cons_self ..)
    rw [List.foldl_cons, hput fields f hnot, ih (by simpa using h), List.append_assoc,
      List.singleton_append]

theorem exists_of_mem_filterMapM {ε α β : Type} {f : α → Except ε (Option β)} {items : List α}
    {kept : List β} (h : items.filterMapM f = .ok kept) {b : β} (hb : b ∈ kept) :
    ∃ a ∈ items, f a = .ok (some b) := by
  induction items generalizing kept with
  | nil =>
    cases h
    cases hb
  | cons a rest ih =>
    rw [List.filterMapM_cons] at h
    cases ha : f a with
    | error e =>
      rw [ha] at h
      cases h
    | ok o =>
      rw [ha] at h
      cases o with
      | none =>
        obtain ⟨x, hx, hfx⟩ := ih h hb
        exact ⟨x, List.mem_cons_of_mem _ hx, hfx⟩
      | some b' =>
        cases hr : rest.filterMapM f with
        | error e =>
          simp [bind, Except.bind, hr] at h
        | ok others =>
          simp only [bind, Except.bind, hr] at h
          cases h
          rcases List.mem_cons.mp hb with rfl | hb
          · exact ⟨a, List.mem_cons_self .., ha⟩
          · obtain ⟨x, hx, hfx⟩ := ih hr hb
            exact ⟨x, List.mem_cons_of_mem _ hx, hfx⟩

theorem filterMapM_of_forall {ε α β : Type} {f : α → Except ε (Option β)} {g : α → β}
    {items : List α} (h : ∀ a ∈ items, f a = .ok (some (g a))) :
    items.filterMapM f = .ok (items.map g) := by
  induction items with
  | nil => rfl
  | cons a rest ih =>
    rw [List.filterMapM_cons, h a (List.mem_cons_self ..),
      ih fun b hb => h b (List.mem_cons_of_mem _ hb)]
    rfl

theorem exists_of_filterMapM {ε α β : Type} {f : α → Except ε (Option β)} {items : List α}
    {kept : List β} (h : items.filterMapM f = .ok kept) : ∀ a ∈ items, ∃ o, f a = .ok o := by
  induction items generalizing kept with
  | nil => exact fun a ha => absurd ha List.not_mem_nil
  | cons a rest ih =>
    rw [List.filterMapM_cons] at h
    obtain ⟨o, ho, h⟩ := exists_of_bind_eq_ok h
    have hrest : ∃ others, rest.filterMapM f = .ok others := by
      cases o with
      | none => exact ⟨kept, h⟩
      | some b =>
        obtain ⟨others, hothers, -⟩ := exists_of_bind_eq_ok h
        exact ⟨others, hothers⟩
    obtain ⟨others, hothers⟩ := hrest
    intro b hb
    rcases List.mem_cons.mp hb with rfl | hb
    · exact ⟨o, ho⟩
    · exact ih hothers b hb

@[simp] theorem facts_underRule {α : Type} (rule : Option (String → String)) (f : Field α) :
    (f.underRule rule).facts = f.facts := by
  cases rule with
  | none => rfl
  | some rule =>
    simp only [Field.underRule]
    split <;> rfl

/-- Whether a name is that of a field, whatever the settings are. -/
def FieldName.isFree (name : String) : Bool :=
  name != rootWord && !isHidden name && name != settings && (belonging? name).isNone

theorem FieldName.declared_of_isFree {config : Config} {isBare : Bool} {name : String}
    (h : isFree name = true) : declared config isBare name = .ok .free := by
  simp only [isFree, Bool.and_eq_true, bne_iff_ne, ne_eq, Bool.not_eq_true',
    Option.isNone_iff_eq_none] at h
  obtain ⟨⟨⟨hroot, hhidden⟩, hsettings⟩, hbelongs⟩ := h
  simp only [declared, isTaken, hroot, hhidden, hsettings, hbelongs, Option.isSome_none,
    Bool.false_and, Bool.false_eq_true, if_false]

theorem DeclaredField.filterMapM_field? {config : Config} {declared : List DeclaredField}
    {fields : List (Field TypeExpr)}
    (hfree : (declared.all fun d => FieldName.isFree d.name) = true)
    (h : declared.mapM (fun d => Field.resolve? d.name d.type d.facts d.bounds) = some fields) :
    declared.filterMapM (field? config) = .ok fields := by
  induction declared generalizing fields with
  | nil =>
    cases h
    rfl
  | cons d rest ih =>
    rw [List.all_cons, Bool.and_eq_true] at hfree
    rw [List.mapM_cons] at h
    obtain ⟨f, hf, h⟩ := Option.bind_eq_some_iff.mp h
    obtain ⟨fs, hfs, h⟩ := Option.bind_eq_some_iff.mp h
    cases h
    rw [List.filterMapM_cons, DeclaredField.field?, FieldName.declared_of_isFree hfree.1, hf,
      ih hfree.2 hfs]
    rfl

/-- The records before a declaration, and the one that it means. -/
def Declaration.onto (before : List (Record TypeExpr)) (d : Declaration) :
    Except Fault (List (Record TypeExpr)) := do
  return before ++ [← d.record before]

/-- What a declaration means whose fields all have free names. -/
theorem Declaration.onto_of_isFree {before : List (Record TypeExpr)} {d : Declaration}
    (fields : List (Field TypeExpr))
    (hfree : (d.fields.all fun f => FieldName.isFree f.name) = true)
    (h : d.fields.mapM (fun f => Field.resolve? f.name f.type f.facts f.bounds) = some fields) :
    d.onto before = .ok (before ++ [
      let base := d.base.bind fun name => before.find? fun r => r.name = name
      Record.ofFields d.name d.doc (Entries.override ((base.map Record.config).getD []) d.config)
        (fields.foldl putField ((base.map Record.fields).getD []))]) := by
  rw [Declaration.onto, Declaration.record]
  dsimp only
  rw [DeclaredField.filterMapM_field? hfree h]
  rfl

theorem forall_foldl_putField {P : Field TypeExpr → Prop} {own fields : List (Field TypeExpr)}
    (hf : ∀ f ∈ fields, P f) (ho : ∀ f ∈ own, P f) : ∀ f ∈ own.foldl putField fields, P f := by
  induction own generalizing fields with
  | nil => exact hf
  | cons g rest ih =>
    refine ih (fun f hm => ?_) fun f hm => ho f (List.mem_cons_of_mem _ hm)
    rcases mem_putField hm with hm | rfl
    · exact hf f hm
    · exact ho f (List.mem_cons_self ..)

namespace Catalog

theorem models_of_foldlM_add {ds : List Declaration} {c₀ c₁ : Catalog}
    (h : ds.foldlM add c₀ = .ok c₁) :
    ds.foldlM Declaration.onto c₀.models = .ok c₁.models := by
  induction ds generalizing c₀ with
  | nil =>
    cases h
    rfl
  | cons d rest ih =>
    obtain ⟨c', hadd, hrest⟩ := foldlM_cons_eq_ok h
    obtain ⟨r, hr, hlearn⟩ := add_eq_ok hadd
    have honto : Declaration.onto c₀.models d = .ok c'.models := by
      rw [Declaration.onto, hr, (learn_eq_ok hlearn).1]
      rfl
    rw [List.foldlM_cons, honto]
    exact ih hrest

/-- Once all is declared, the models are the records that the declarations mean. -/
theorem models_of_declare {ds : List Declaration} {es : List Enumeration} {c : Catalog}
    (h : Catalog.declare ds es = .ok c) : ds.foldlM Declaration.onto [] = .ok c.models := by
  obtain ⟨c₁, hadd, -, hm, -⟩ := declare_eq_ok h
  rw [hm]
  exact models_of_foldlM_add hadd

theorem forall_foldlM_onto {P : Record TypeExpr → Prop} (hP : ∀ before (d : Declaration) r,
      (∀ r' ∈ before, P r') → d.record before = .ok r → P r)
    {ds : List Declaration} {before after : List (Record TypeExpr)} (hb : ∀ r ∈ before, P r)
    (h : ds.foldlM Declaration.onto before = .ok after) : ∀ r ∈ after, P r := by
  induction ds generalizing before with
  | nil =>
    cases h
    exact hb
  | cons d rest ih =>
    rw [List.foldlM_cons] at h
    obtain ⟨next, hnext, hrest⟩ := exists_of_bind_eq_ok h
    refine ih ?_ hrest
    rw [Declaration.onto] at hnext
    obtain ⟨r, hr, hnext⟩ := exists_of_bind_eq_ok hnext
    cases hnext
    exact List.forall_mem_append.mpr ⟨hb, List.forall_mem_singleton.mpr (hP before d r hb hr)⟩

/-- What each declaration brings to its record, if those before it have it, all models have. -/
theorem forall_models {P : Record TypeExpr → Prop} (hP : ∀ before (d : Declaration) r,
      (∀ r' ∈ before, P r') → d.record before = .ok r → P r)
    {ds : List Declaration} {es : List Enumeration} {c : Catalog}
    (h : Catalog.declare ds es = .ok c) : ∀ r ∈ c.models, P r := by
  exact forall_foldlM_onto hP (fun r hr => absurd hr List.not_mem_nil) (models_of_declare h)

/-- What every declared field has, whatever rule it is under, all fields of all models have. -/
theorem forall_fields {P : Field TypeExpr → Prop} (hrule : ∀ rule f, P f → P (f.underRule rule))
    (hfield : ∀ config (d : DeclaredField) f, d.field? config = .ok (some f) → P f)
    {ds : List Declaration} {es : List Enumeration} {c : Catalog}
    (h : Catalog.declare ds es = .ok c) : ∀ r ∈ c.models, ∀ f ∈ r.fields, P f := by
  refine forall_models (P := fun r => ∀ f ∈ r.fields, P f) (fun before d r hb hr => ?_) h
  rw [Declaration.record] at hr
  obtain ⟨own, hown, hr⟩ := exists_of_bind_eq_ok hr
  cases hr
  intro f hf
  obtain ⟨g, hg, rfl⟩ := List.mem_map.mp hf
  refine hrule _ g (forall_foldl_putField (fun g hg => ?_) (fun g hg => ?_) g hg)
  · obtain ⟨base, hbase, hg⟩ : ∃ base, (d.base.bind fun name =>
        before.find? fun r => r.name = name) = some base ∧ g ∈ base.fields := by
      cases hbase : d.base.bind fun name => before.find? fun r => r.name = name with
      | none =>
        rw [hbase] at hg
        cases hg
      | some base =>
        rw [hbase] at hg
        exact ⟨base, rfl, hg⟩
    obtain ⟨name, -, hfind⟩ := Option.bind_eq_some_iff.mp hbase
    exact hb base (List.mem_of_find?_eq_some hfind) g hg
  · obtain ⟨declared, -, hdeclared⟩ := exists_of_mem_filterMapM hown hg
    exact hfield _ declared g hdeclared

end Catalog

/-! ## Fields that are made again -/

namespace Field
variable {α : Type}

/-- The key under which the object of a model has a field. -/
def key (f : Field α) : String := f.known.inputName f.name

/-- A field as a record makes it again: its name for the outside is up to the rule of the record. -/
def again (config : Config) (f : Field α) : Field α :=
  { f with ruled := (Config.nameRule? config).map fun rule => rule f.name }

end Field

/-- Whether a record, put together from its fields, refuses none of them. -/
structure Record.IsFree (r : Record TypeExpr) : Prop where
  named : r.name ≠ ""
  free : ∀ f ∈ r.fields, FieldName.isTaken r.config f.name = false

/-- A record that is put together from the fields of a declared one whose keys are not among some. -/
def Record.leaving (names : List String) (r : Record TypeExpr) : Record TypeExpr where
  name := r.name
  doc := Text.describedBy r.doc
  config := r.config
  fields := (r.fields.filter fun f => !names.contains f.key).map (Field.again r.config)

theorem Field.eq_some_of_kept? {config : Config} {f : Field TypeExpr} {o : Option (Field TypeExpr)}
    (hv : FieldName.isHidden f.name = false) (h : f.kept? config = .ok o) : o = some f := by
  rw [Field.kept?] at h
  obtain ⟨standing, hstanding, h⟩ := exists_of_bind_eq_ok h
  cases standing with
  | free => exact (Except.ok.inj h).symm
  | held => exact (Except.ok.inj h).symm
  | hidden =>
    rw [FieldName.assembled, hv] at hstanding
    split at hstanding
    · cases hstanding
    · split at hstanding
      · contradiction
      · split at hstanding
        · split at hstanding <;> cases hstanding
        · split at hstanding <;> cases hstanding

theorem Record.assemble_eq {name : String} {doc : Option String} {config : Config}
    {fields : List (Field TypeExpr)} (hn : (fields.map Field.name).Nodup)
    (hk : ∀ f ∈ fields, f.kept? config = .ok (some f)) :
    Record.assemble name doc config fields = .ok (Record.ofFields name doc config fields) := by
  have hkept : fields.filterMapM (Field.kept? config) = .ok fields := by
    have h := filterMapM_of_forall (g := id) hk
    rwa [List.map_id] at h
  rw [Record.assemble, hkept]
  change Except.ok _ = _
  have hput : fields.foldl putField [] = [] ++ fields :=
    foldl_putField (by rwa [List.nil_append])
  rw [hput, List.nil_append]

/-- A record that is put together from fields of different names has them all, when none is hidden. -/
theorem Record.eq_ofFields_of_assemble {name : String} {doc : Option String} {config : Config}
    {fields : List (Field TypeExpr)} {r : Record TypeExpr}
    (h : Record.assemble name doc config fields = .ok r) (hn : (fields.map Field.name).Nodup)
    (hv : ∀ f ∈ fields, FieldName.isHidden f.name = false) :
    r = Record.ofFields name doc config fields := by
  have hkept : ∀ f ∈ fields, f.kept? config = .ok (some f) := by
    obtain ⟨kept, hkept, -⟩ := exists_of_bind_eq_ok h
    intro f hf
    obtain ⟨o, ho⟩ := exists_of_filterMapM hkept f hf
    obtain rfl := Field.eq_some_of_kept? (hv f hf) ho
    exact ho
  rw [Record.assemble_eq hn hkept] at h
  exact (Except.ok.inj h).symm

namespace Schema
variable {c : Catalog} {name : String} {r : Record TypeExpr}

@[simp] theorem isOptional_readFrom (f : Field TypeExpr) (s : Schema) :
    (s.readFrom f).isOptional = s.isOptional := by
  cases s with
  | wrapped w inner o => rw [readFrom, isOptional.eq_def, isOptional.eq_def]
  | _ => rfl

@[simp] theorem origin_ofField (objectOf : String → Option Schema) (f : Field TypeExpr) :
    (ofField objectOf f).origin = some f := by
  rw [ofField, origin_readFrom]

/-- What the object of a declared model says besides its fields. -/
def headOf (r : Record TypeExpr) : Head where
  name := some r.name
  description := Text.describedBy r.doc
  model := some r.name
  config := some r.config

theorem ofModel_eq (hr : c.model? name = some r) : ofModel c name = object (headOf r)
    (Entries.ofList (r.fields.map fun f => (f.key, ofField (objectOf c [name]) f))) none := by
  have hopen : c.open? [] name = some r := by
    rw [Catalog.open?, List.contains_nil, if_neg Bool.false_ne_true, hr]
  rw [ofModel, objectOf_of_open? hopen, Option.getD_some, ofRecord, ofFields]
  rfl

theorem ofModel_of_nodup (hr : c.model? name = some r) (hn : (r.fields.map Field.key).Nodup) :
    ofModel c name = object (headOf r)
      (r.fields.map fun f => (f.key, ofField (objectOf c [name]) f)) none := by
  have hkeys : (Entries.keys ([] ++ r.fields.map fun f =>
      (f.key, ofField (objectOf c [name]) f))).Nodup := by
    simpa [Entries.keys, Function.comp_def] using hn
  rw [ofModel_eq hr, Entries.ofList, Entries.override_of_nodup hkeys, List.nil_append]

@[simp] theorem type_headOf (fields : List (String × Schema)) :
    (object (headOf r) fields none).type = .ok (.model r.name) := by
  rw [type]
  rfl

theorem render_object {head : Head} {fields : List (String × Schema)} {side : Side}
    {a : TypeExpr} (ha : (object head fields none).type = .ok a) {j : Json} :
    ((object head fields none).render c side).outcome = .ok j ↔
      ∃ e, c.fragment side a = .ok e ∧ (inlined e).outcome = .ok j := by
  have hshown : (object head fields none).shown c side =
      c.fragmentFor side (orIfEmpty head.name "object") a := by
    rw [shown, ha]
    · rfl
    · exact fun w inner origin h => Schema.noConfusion h
  rw [render, hshown]
  exact Traced.outcome_bind_eq_ok.trans
    (exists_congr fun e => and_congr_left' Catalog.fragmentFor_eq_ok)

end Schema
end Procedoc
