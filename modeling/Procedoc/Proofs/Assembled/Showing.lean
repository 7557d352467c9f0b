import Procedoc.Proofs.Assembled.Laying
import Procedoc.Proofs.Document.Gathering
import Procedoc.Proofs.Inlining.Overriding
import Procedoc.Proofs.Keeping.Linking

/-! # What records show that are put together

The definition of a record that is put together is the last on its sheet, under a label that nothing
else has (`Layout.Topped.exists_write`).  Finishing the sheet leaves the definition itself or a
reference to it (`Sheet.EndsWith.finish_eq_ok`), and inlining shows its entries in both cases
(`Catalog.exists_written`). -/

namespace Procedoc
set_option autoImplicit false
open ExceptT (Keeps result_bind result_get result_modify result_pure)
variable {N : Norm}

/-! ## Sheets with a last definition -/

/-- Whether a definition is the last one on a sheet and has a label of its own. -/
structure Sheet.EndsWith (s : Sheet) (label : String) (e : Entries Json) : Prop where
  last : ∃ others, s.definitions = others ++ [(label, .obj e)] ∧ label ∉ Entries.keys others
  named : Entries.has s.names label = true
  unbroken : label ∉ s.broken

namespace Sheet.EndsWith
variable {s : Sheet} {label : String} {e : Entries Json}

theorem get?_definitions (hs : s.EndsWith label e) :
    Entries.get? s.definitions label = some (.obj e) := by
  obtain ⟨others, heq, hnew⟩ := hs.last
  rw [heq, ← Entries.put_of_notMem hnew, Entries.get?_put, if_pos rfl]

theorem target?_self (hs : s.EndsWith label e) :
    s.target? (.str (definitionRef label)) = .ok (some (.obj e)) := by
  simp [target?, Option.filter, hs.named, hs.unbroken, hs.get?_definitions]

theorem unfold_cases (hs : s.EndsWith label e) (href : Entries.get? e "$ref" = none) {steps : Nat}
    {t : Tally} {body : Entries Json} (h : unfold s steps t (referenceTo label) = .ok body) :
    body = referenceTo label ∨ body = e := by
  have hget : Entries.get? (referenceTo label) "$ref" = some (.str (definitionRef label)) := rfl
  cases steps with
  | zero =>
    rw [unfold] at h
    exact .inl (Except.ok.inj h).symm
  | succ steps =>
    rw [unfold, hget] at h
    simp only [hs.target?_self, bind, Except.bind] at h
    split at h
    · refine .inr ?_
      cases steps with
      | zero =>
        rw [unfold] at h
        exact (Except.ok.inj h).symm
      | succ steps =>
        rw [Json.entries_obj, unfold, href] at h
        exact (Except.ok.inj h).symm
    · exact .inl (Except.ok.inj h).symm

theorem inUse_reference (hs : s.EndsWith label e) {inUse : Entries Json}
    (h : s.inUse (referenceTo label) = .ok inUse) : ∃ others, inUse = others ++ [(label, .obj e)] := by
  obtain ⟨found, hmem, rfl⟩ := Sheet.exists_of_inUse_reference (by
    rw [hs.get?_definitions]
    rfl) h
  obtain ⟨others, heq, -⟩ := hs.last
  refine ⟨others.filter fun d => found.contains d.1, ?_⟩
  rw [heq, List.filter_append, List.filter_singleton, List.contains_iff_mem.mpr hmem]
  rfl

theorem finish_eq_ok (hs : s.EndsWith label e) (href : Entries.get? e "$ref" = none)
    {whole : Entries Json} (h : s.finish (referenceTo label) = .ok whole) :
    hasUnhashable (.obj e) = false ∧ ((∃ inUse, whole = finished s.names inUse e) ∨
      ∃ others, whole = finished s.names (others ++ [(label, .obj e)]) (referenceTo label)) := by
  obtain ⟨t, body, inUse, -, hbody, hinUse, hhash, hhashes, rfl⟩ := Sheet.exists_of_finish h
  rcases hs.unfold_cases href hbody with rfl | rfl
  · obtain ⟨others, rfl⟩ := hs.inUse_reference hinUse
    exact ⟨hhashes (label, .obj e) (List.mem_append_right _ (List.mem_singleton.mpr rfl)),
      .inr ⟨others, rfl⟩⟩
  · exact ⟨hhash, .inl ⟨inUse, rfl⟩⟩

theorem nodup_keys (hs : s.EndsWith label e) (hn : (Entries.keys e).Nodup)
    (href : Entries.get? e "$ref" = none) {whole : Entries Json}
    (h : s.finish (referenceTo label) = .ok whole) : (Entries.keys whole).Nodup := by
  obtain ⟨-, ⟨inUse, rfl⟩ | ⟨others, rfl⟩⟩ := hs.finish_eq_ok href h
  · exact nodup_finished s.names hn
  · exact nodup_finished s.names (List.nodup_singleton _)

/-- Inlining a schema that was finished shows the entries of the definition. -/
theorem mirrors (hs : s.EndsWith label e) (hn : (Entries.keys e).Nodup)
    (href : Entries.get? e "$ref" = none) {whole : Entries Json}
    (h : s.finish (referenceTo label) = .ok whole) {j : Json} (hj : Inlines whole j) :
    ∃ shown, j = .obj shown ∧ Mirrors e shown := by
  have hrefers : ∀ name, ¬ Refers e name := fun name hr => by
    rw [Refers, href] at hr
    cases hr
  obtain ⟨-, ⟨inUse, rfl⟩ | ⟨others, rfl⟩⟩ := hs.finish_eq_ok href h
  · exact mirrors_of_inlined_body hn hrefers hj
  · refine mirrors_of_inlined_reference hn hrefers ?_ hj
    -- of the definitions that get one name the last one has it
    rw [Renaming.definitions, List.map_append, Entries.ofList, Entries.override_append]
    exact (Entries.get?_put _ _ _ _).trans (if_pos rfl)

end Sheet.EndsWith

/-! ## Layouts with a record on top -/

/-- A definition whose owner does not obey is written under a label of its own. -/
theorem exists_of_result_entity {key : Key} (hkey : ¬ key.owner.Obeys N) {side : Side} {s s' : Sheet}
    (hs : s.Obeys N) {body : Writing (Entries Json)} (hbody : Keeps (Sheet.Obeys N) N.Writes body)
    {schema : Entries Json} (h : (Writing.entity key side body).result s = (.ok schema, s')) :
    ∃ e label s₁, body.result s = (.ok e, s₁) ∧ schema = referenceTo label ∧
      (Entries.get? e "$ref" = none → s'.EndsWith label e) := by
  have hs₁ := (hbody s hs).1
  rw [Writing.result_entity (by rw [hs.lookup_eq_none hkey side, Option.filter_none])] at h
  rcases he : body.result s with ⟨o | e, s₁⟩
  · rw [he] at h
    cases h
  rw [he] at h hs₁
  cases h
  have hfresh := hs₁.notMem_withLabel hkey side
  have hwith := Sheet.withLabel_of_none (hs₁.lookup_eq_none hkey side)
  refine ⟨e, (s₁.withLabel key side).1, s₁, rfl, rfl, fun href => ?_⟩
  · rw [href, if_pos (by rfl)]
    refine ⟨⟨s₁.definitions, ?_, hfresh⟩, ?_, ?_⟩
    · rw [Sheet.define, show (s₁.withLabel key side).2.definitions = s₁.definitions by rw [hwith],
        Entries.put_of_notMem hfresh]
    · rw [Sheet.define, hwith, Entries.has, Entries.get?_put, if_pos rfl]
      rfl
    · rw [Sheet.define]
      simp

section Writing
variable {c : Catalog} (hc : c.Yields N) (hremarks : ∀ p ∈ c.remarks, p.2.Obeys N)
include hc hremarks

/-- The record on top of a layout is the last definition that is written. -/
theorem Layout.Topped.exists_write {key : Key} (hkey : ¬ key.owner.Obeys N) {r : Record Shape}
    (hconfig : (Json.obj r.config).Obeys N) {l : Layout} (hl : l.Topped N key r) {asked : Side}
    {schema : Entries Json} {s : Sheet} (h : (l.write c asked).result {} = (.ok schema, s)) :
    ∃ fields ps label s₁ s₂, List.Forall₂ Field.Stems fields r.fields ∧
      (Shape.writeFields c asked r.config fields).result s₁ = (.ok ps, s₂) ∧
      schema = referenceTo label ∧
      (Entries.get? (recordEntries r.name r.doc r.config ps) "$ref" = none →
        s.EndsWith label (recordEntries r.name r.doc r.config ps)) := by
  obtain ⟨name, doc, config, given⟩ := r
  obtain ⟨fields, htop, hstems, hfields⟩ := hl.top
  have hdefinitions := keeps_writeDefinitions hc hremarks asked hl.definitions {} Sheet.obeys_empty
  rw [Layout.write, result_bind] at h
  rcases hd : (writeDefinitions c asked l.definitions).result {} with ⟨o | u, s₀⟩
  · rw [hd] at h
    cases h
  rw [hd] at h hdefinitions
  dsimp only at h
  rw [htop, Shape.write] at h
  have hbody : Keeps (Sheet.Obeys N) N.Writes (do
      let properties ← Shape.writeFields c asked config fields
      if Config.isWritable config then return recordEntries name doc config properties
      else throw .unfitSetting) := by
    refine .bind (Shape.keeps_writeFields hc hremarks asked hconfig fields
      (Shape.fieldsObey_iff.mpr hfields)) fun ps hps => ?_
    split
    · exact .pure (Norm.writes_recordEntries name doc hconfig hps)
    · exact .throw _
  obtain ⟨e, label, s₁, he, hschema, hends⟩ := exists_of_result_entity hkey hdefinitions.1 hbody h
  rw [result_bind] at he
  rcases hps : (Shape.writeFields c asked config fields).result s₀ with ⟨o | ps, s₂⟩
  · rw [hps] at he
    cases he
  rw [hps] at he
  dsimp only at he
  split at he
  · cases he
    exact ⟨fields, ps, label, s₀, s₁, hstems, hps, hschema, hends⟩
  · cases he

end Writing

/-! ## Counting records -/

/-- Anything may be written down, and the records that are put together are counted from one on. -/
def Norm.counting : Norm where
  first := 1
  key _ := True
  value _ := True
  key_of_ne _ _ _ := trivial
  value_of_data _ _ := trivial

theorem Json.obeys_counting (j : Json) : j.Obeys .counting := by
  have hfits : ∀ named, j.Fits (fun _ _ _ => True) named := by
    induction j using Json.parts_induction with
    | scalar j ha ho => exact fun _ => Json.fits_scalar ha ho
    | arr items ih => exact fun _ => Json.fits_arr.mpr fun j hj => ih j hj _
    | obj e ih => exact fun _ => Json.fits_obj.mpr fun p hp => ⟨trivial, ih p hp _⟩
  exact hfits false

theorem Facts.obeys_counting (f : Facts) : f.Obeys .counting :=
  ⟨fun _ _ => trivial, fun _ _ => Json.obeys_counting _, fun x _ => by
    cases x with
    | entries e => exact Json.obeys_counting _
    | hook => trivial⟩

theorem Mark.obeys_counting (m : Mark) : m.Obeys .counting := by
  cases m with
  | check moment => trivial
  | bound b => exact Json.obeys_counting _
  | field facts bounds => exact ⟨facts.obeys_counting, fun b _ => Json.obeys_counting _⟩

theorem Notes.obeys_counting (n : Notes) : n.Obeys .counting :=
  ⟨Json.obeys_counting _, fun x _ => by
    cases x with
    | entries e => exact Json.obeys_counting _
    | hook => trivial⟩

mutual
theorem TypeExpr.obeys_counting : (a : TypeExpr) → a.Obeys .counting True
  | .plain _ | .model _ | .enumeration _ => trivial
  | .literal _ => fun _ _ => trivial
  | .container _ item => by
    rw [TypeExpr.Obeys]
    exact obeys_counting item
  | .tuple items | .union _ items => by
    rw [TypeExpr.Obeys]
    exact allObey_counting items
  | .dict k v => by
    rw [TypeExpr.Obeys]
    exact ⟨obeys_counting k, obeys_counting v⟩
  | .marked base marks => by
    rw [TypeExpr.Obeys]
    exact ⟨obeys_counting base, fun m _ => m.obeys_counting⟩
  | .record ⟨_, _, _, fields⟩ => by
    rw [TypeExpr.Obeys]
    exact ⟨trivial, Json.obeys_counting _, fieldsObey_counting fields⟩

theorem TypeExpr.allObey_counting : (types : List TypeExpr) → TypeExpr.AllObey .counting True types
  | [] => trivial
  | a :: rest => ⟨obeys_counting a, allObey_counting rest⟩

theorem TypeExpr.fieldsObey_counting : (fields : List (Field TypeExpr)) →
    TypeExpr.FieldsObey .counting True fields
  | [] => trivial
  | ⟨_, type, _, facts, _⟩ :: rest => by
    rw [TypeExpr.FieldsObey]
    exact ⟨⟨obeys_counting type, fun m _ => m.obeys_counting, facts.obeys_counting⟩,
      fieldsObey_counting rest⟩
end

/-- Whether the types in declared models name records, so that none is put together in them. -/
def Catalog.NamesRecords (c : Catalog) : Prop := ∀ r ∈ c.models, r.Obeys .counting False

namespace Catalog
variable {c c' : Catalog}

theorem NamesRecords.obeys {ds : List Declaration} {es : List Enumeration}
    (h : declare ds es = .ok c) (hc : c.NamesRecords) : c.Obeys .counting :=
  obeys_declare h hc fun _ _ _ _ => Json.obeys_counting _

theorem Obeys.of_same (hc : c.Obeys .counting) (h : c.Same c') : c'.Obeys .counting where
  models := h.models ▸ hc.models
  enumerations _ _ _ _ := Json.obeys_counting _
  layouts := h.layouts ▸ hc.layouts
  remarks _ _ := Notes.obeys_counting _

end Catalog

/-! ## Schemas of records that are put together -/

/-- Entries that are written over a schema, but for its reference and its definitions, leave what
inlining shows under other keys. -/
theorem Inlines.of_override {whole top : Entries Json} {j : Json} (hn : (Entries.keys whole).Nodup)
    (href : "$ref" ∉ Entries.keys top) (hdefs : "$defs" ∉ Entries.keys top)
    (h : Inlines (Entries.override whole top) j) :
    ∃ j', Inlines whole j' ∧ ∀ k ∉ Entries.keys top, j.get? k = j'.get? k := by
  obtain ⟨definitions, hread, rfl⟩ := h
  rw [Entries.get?_override_of_notMem hdefs] at hread
  refine ⟨_, ⟨definitions, hread, rfl⟩, fun k hk => ?_⟩
  obtain ⟨e, he⟩ : ∃ e, e = Entries.without whole "$defs" := ⟨_, rfl⟩
  obtain ⟨e', he'⟩ : ∃ e', e' = Entries.without (Entries.override whole top) "$defs" := ⟨_, rfl⟩
  have hsame : ∀ k ∉ Entries.keys top, Entries.get? e' k = Entries.get? e k := fun k hk => by
    rw [he, he', Entries.get?_without, Entries.get?_without, Entries.get?_override_of_notMem hk]
  have hinside : Entries.get? (expandEntries definitions [] e').value k =
      Entries.get? (expandEntries definitions [] e).value k := by
    rw [value_expandEntries, value_expandEntries, Entries.get?_mapValues, Entries.get?_mapValues,
      hsame k hk]
  have hreference : referenceOf? e' = referenceOf? e := by
    rw [referenceOf?, referenceOf?, hsame "$ref" href]
  rw [← he, ← he', Json.get?, Json.get?]
  cases hr : referenceOf? e with
  | none =>
    rw [expand_plain (hreference.trans hr), expand_plain hr]
    exact hinside
  | some reference =>
    obtain ⟨ref, name⟩ := reference
    cases htarget : Entries.get? definitions name with
    | none =>
      rw [expand_cut (hreference.trans hr) (.inr htarget), expand_cut hr (.inr htarget)]
      dsimp only [Json.entries]
      rw [Entries.get?_without, Entries.get?_without, hinside]
    | some target =>
      rw [expand_followed (hreference.trans hr) List.not_mem_nil htarget,
        expand_followed hr List.not_mem_nil htarget]
      dsimp only [Json.override, Json.entries]
      rw [Entries.get?_override _ (nodup_keys_siblings (e := e') ?_),
        Entries.get?_override _ (nodup_keys_siblings (e := e) ?_),
        Entries.get?_without, Entries.get?_without, hinside]
      · exact he ▸ Entries.nodup_keys_without hn _
      · exact he' ▸ Entries.nodup_keys_without (Entries.nodup_keys_override hn _) _

theorem Config.get?_recordEntries_ref {config : Config}
    (href : Entries.get? (Config.schemaEntries config) "$ref" = none) (name : String)
    (doc : Option String) (ps : List Property) :
    Entries.get? (recordEntries name doc config ps) "$ref" = none := by
  rw [recordEntries_eq, Entries.get?_override_of_notMem (Entries.get?_eq_none_iff.mp href),
    Entries.get?, if_neg (by decide)]
  exact Entries.get?_eq_none_iff.mpr (notMem_keys_recordRest _ (by decide))

theorem map_eq_map_of_forall₂ {α β γ : Type} {R : α → β → Prop} {xs : List α} {ys : List β}
    (h : List.Forall₂ R xs ys) {f : α → γ} {g : β → γ} (hfg : ∀ x y, R x y → f x = g y) :
    xs.map f = ys.map g := by
  induction h with
  | nil => rfl
  | cons hxy _ ih => rw [List.map_cons, List.map_cons, hfg _ _ hxy, ih]

namespace Shaping.Worked
variable {f : Field Shape} {g : Field TypeExpr}

theorem facts (h : Worked f g) : f.facts = g.facts := congrArg Field.facts h.head

theorem propertyName_eq (h : Worked f g) (side : Side) (config : Config) :
    propertyName side config f = propertyName side config g :=
  congrArg (propertyName side config) h.head

end Shaping.Worked

/-- What is known of the schema of a record that is put together, `ps` being its properties: its
fields made them, and inlining shows its entries. -/
structure Record.Written (c : Catalog) (side : Side) (r : Record TypeExpr) (e : Entries Json)
    (ps : List Property) : Prop where
  properties : ∃ fields s s', List.Forall₂ Shaping.Worked fields r.fields ∧
    (Shape.writeFields c side r.config fields).result s = (.ok ps, s')
  hashable : hasUnhashable (.obj (recordEntries r.name r.doc r.config ps)) = false
  nodup : (Entries.keys e).Nodup
  mirrors : ∀ j, Inlines e j → ∃ shown, j = .obj shown ∧
    Mirrors (recordEntries r.name r.doc r.config ps) shown

/-- The names of the properties and whether they have to be present depend on what is said of the
fields. -/
theorem Record.Written.heads {c : Catalog} {side : Side} {r : Record TypeExpr} {e : Entries Json}
    {ps : List Property} (h : r.Written c side e ps) :
    (ps.map fun p => (p.name, p.isRequired)) = r.fields.map fun g =>
      (propertyName (Shape.sideIn r.config side) r.config g,
        isRequired (Shape.sideIn r.config side) r.config g.facts) := by
  obtain ⟨fields, s, s', hworked, hps⟩ := h.properties
  rw [Shape.heads_writeFields hps]
  exact map_eq_map_of_forall₂ hworked fun f g hw => by rw [hw.propertyName_eq, hw.facts]

/-- The schema of a record that is put together has the properties that its fields make, unless
hand-written entries turn the record into a reference. -/
theorem Catalog.exists_written {c : Catalog} (hc : c.Obeys .counting) {r : Record TypeExpr}
    (href : Entries.get? (Config.schemaEntries r.config) "$ref" = none) {side : Side}
    {e : Entries Json} (h : c.fragment side (.record r) = .ok e) :
    ∃ ps, r.Written (c.heed (.record r)) side e ps := by
  have hkey : ¬ ({ owner := .made r.name 0 } : Key).owner.Obeys .counting := by
    rw [Owner.Obeys]
    decide
  obtain ⟨l, hl, hschema⟩ := Catalog.exists_layout_of_fragment h
  obtain ⟨made, hworked, htopped⟩ := topped_layOut rfl hc
    (TypeExpr.fieldsObey_iff.mp (TypeExpr.fieldsObey_counting r.fields)) hl
  obtain ⟨schema, s, hs, hfinish⟩ := Layout.schema_eq_ok.mp hschema
  obtain ⟨fields, ps, label, s₁, s₂, hstems, hps, rfl, hends⟩ := htopped.exists_write
    (fun _ _ _ _ _ => Json.obeys_counting _) (fun _ _ => Notes.obeys_counting _) hkey
    (Json.obeys_counting _) hs
  have hplain := Config.get?_recordEntries_ref href r.name r.doc ps
  have hnodup := nodup_keys_recordEntries r.name r.doc r.config ps
  exact ⟨ps, ⟨fields, s₁, s₂, Shaping.worked_of_stems hstems hworked, hps⟩,
    ((hends hplain).finish_eq_ok hplain hfinish).1, (hends hplain).nodup_keys hnodup hplain hfinish,
    fun _ hj => (hends hplain).mirrors hnodup hplain hfinish hj⟩

end Procedoc
