import Procedoc.Proofs.Rendering.Alone

/-! # What records by themselves show

Inlining leaves of the schema of a record by itself, under each key, what the record has there, but
for the labels and the references in it (`Layout.IsLone.mirrored`).  So the names of its properties
are those of its fields (`Record.MirroredBy.propertyNames_eq`), and it requires those of them that
have to be present (`Record.MirroredBy.mem_requiredNames`). -/
namespace Procedoc
set_option autoImplicit false

/-! ## What inlining leaves of a definition -/

/-- Whether entries show those of a definition, but for the names of definitions, the order of keys,
and what references lead to. -/
def Mirrors (e shown : Entries Json) : Prop :=
  ∃ (n : Renaming) (definitions : Entries Json) (stack : List String), ∀ k, k ≠ "$defs" →
    Entries.get? shown k = (Entries.get? e k).map fun v =>
      (expand definitions stack (Json.sortedWithin (Json.keepsOrder k) (n.data v))).value

theorem Json.sortedWithin_str (kept : Bool) (s : String) :
    Json.sortedWithin kept (.str s) = .str s := by
  rw [Json.sortedWithin]
  · exact fun _ h => by cases h
  · exact fun _ h => by cases h

section Inlined
variable {e : Entries Json}

/-- What is no reference is none under other names and in another order either. -/
theorem not_refers_arranged {n : Renaming} {e' : Entries Json} {kept : Bool}
    (h : Entries.get? e' "$ref" = (Entries.get? e "$ref").map fun v =>
      Json.sortedWithin kept (n.data v))
    (he : ∀ name, ¬ Refers e name) (name : String) : ¬ Refers e' name := by
  intro hr
  rw [Refers, h] at hr
  obtain ⟨v, hv, hs⟩ := Option.map_eq_some_iff.mp hr
  cases v with
  | str s =>
    rw [Renaming.data, Json.sortedWithin_str, Json.str.injEq] at hs
    cases hd : definitionName? s with
    | none =>
      rw [Renaming.text_of_none n hd] at hs
      subst hs
      exact he name hv
    | some label =>
      obtain rfl := definitionName?_eq_some_iff.mp hd
      exact he label hv
  | arr items =>
    rw [Renaming.data, Json.sortedWithin] at hs
    cases hs
  | obj e =>
    rw [Renaming.data, Json.sortedWithin] at hs
    cases hs
  | _ =>
    rw [Renaming.data, Json.sortedWithin] at hs
    · cases hs
    all_goals exact fun _ h => by cases h

theorem get?_expand_plain (definitions : Entries Json) (stack : List String)
    (h : ∀ name, ¬ Refers e name) : ∃ r, (expand definitions stack (.obj e)).value = .obj r ∧
      ∀ k, Entries.get? r k = (Entries.get? e k).map fun v => (expand definitions stack v).value := by
  refine ⟨(expandEntries definitions stack e).value, ?_, fun k => ?_⟩
  · rw [expand_plain (referenceOf?_eq_none_iff.mpr h)]
  · rw [value_expandEntries, Entries.get?_mapValues]

theorem exists_shown_obj (n : Renaming) (definitions : Entries Json) (stack : List String)
    (kept : Bool) (hn : (Entries.keys e).Nodup) (hr : ∀ name, ¬ Refers e name) : ∃ shown,
      (expand definitions stack (Json.sortedWithin kept (n.data (.obj e)))).value = .obj shown ∧
      ∀ k, Entries.get? shown k = (Entries.get? e k).map fun v =>
        (expand definitions stack (Json.sortedWithin (Json.keepsOrder k) (n.data v))).value := by
  obtain ⟨d, hd⟩ : ∃ d, Json.sortedWithin kept (.obj (n.dataOfEntries e)) = .obj d :=
    ⟨_, sortedWithin_obj _ _⟩
  have hget (k : String) : Entries.get? d k =
      (Entries.get? e k).map fun v => Json.sortedWithin (Json.keepsOrder k) (n.data v) := by
    have hsorted := Json.get?_entries_sortedWithin kept (nodup_dataOfEntries n hn) k
    rwa [hd, Json.entries_obj, Renaming.get?_dataOfEntries, Option.map_map] at hsorted
  obtain ⟨shown, hshown, hall⟩ :=
    get?_expand_plain definitions stack (not_refers_arranged (hget "$ref") hr)
  refine ⟨shown, ?_, fun k => ?_⟩
  · rw [Renaming.data, hd, hshown]
  · rw [hall, hget, Option.map_map]
    rfl

/-- Whether inlining leaves a value of a schema, where nothing stops it. -/
def Inlines (whole : Entries Json) (j : Json) : Prop :=
  ∃ definitions, readDefinitions (Entries.get? whole "$defs") = .ok definitions ∧
    j = (expand definitions [] (.obj (Entries.without whole "$defs"))).value

theorem inlines_of_inlined {whole : Entries Json} {j : Json} (h : (inlined whole).outcome = .ok j) :
    Inlines whole j := by
  obtain ⟨definitions, hd, h⟩ := Traced.outcome_bind_eq_ok.mp h
  obtain ⟨-, -, h⟩ := Traced.outcome_bind_eq_ok.mp h
  exact ⟨definitions, hd, (Except.ok.inj h).symm⟩

/-- A definition that stands in the place of the only reference to it is mirrored. -/
theorem mirrors_of_inlined_body {names : Entries (List String)} {inUse : Entries Json} {j : Json}
    (hn : (Entries.keys e).Nodup) (hr : ∀ name, ¬ Refers e name)
    (h : Inlines (finished names inUse e) j) : ∃ shown, j = .obj shown ∧ Mirrors e shown := by
  obtain ⟨definitions, -, rfl⟩ := h
  obtain ⟨n, hname⟩ : ∃ n, n = Renaming.simplest names inUse := ⟨_, rfl⟩
  have hget (k : String) (hk : k ≠ "$defs") :
      Entries.get? (Entries.without (finished names inUse e) "$defs") k =
        (Entries.get? e k).map fun v => Json.sortedWithin (Json.keepsOrder k) (n.data v) := by
    rw [Entries.get?_without, if_neg hk, get?_finished names hn, get?_wholeOf names hk,
      Renaming.get?_dataOfEntries, Option.map_map, hname]
    rfl
  obtain ⟨r, hr', hall⟩ := get?_expand_plain definitions []
    (not_refers_arranged (hget "$ref" (by decide)) hr)
  refine ⟨r, hr', n, definitions, [], fun k hk => ?_⟩
  rw [hall, hget k hk, Option.map_map]
  rfl

/-- A definition that a reference brings along is mirrored, when it goes by the name that the
reference asks for. -/
theorem mirrors_of_inlined_reference {names : Entries (List String)} {inUse : Entries Json}
    {label : String} {j : Json} (hn : (Entries.keys e).Nodup) (hr : ∀ name, ¬ Refers e name)
    (hdefined : Entries.get? ((Renaming.simplest names inUse).definitions inUse)
      ((Renaming.simplest names inUse).apply label) =
        some ((Renaming.simplest names inUse).data (.obj e)))
    (h : Inlines (finished names inUse (referenceTo label)) j) :
    ∃ shown, j = .obj shown ∧ Mirrors e shown := by
  obtain ⟨n, hname⟩ : ∃ n, n = Renaming.simplest names inUse := ⟨_, rfl⟩
  obtain ⟨name, hlabel⟩ : ∃ name, name = n.apply label := ⟨_, rfl⟩
  obtain ⟨D, hD⟩ : ∃ D, D = finishedDefinitions names inUse := ⟨_, rfl⟩
  have hnodup : (Entries.keys (referenceTo label)).Nodup := List.nodup_singleton _
  rw [← hname, ← hlabel] at hdefined
  have hbrought : Entries.get? (finished names inUse (referenceTo label)) "$defs" = some (.obj D) := by
    cases hempty : inUse.isEmpty with
    | true =>
      rw [List.isEmpty_iff.mp hempty] at hdefined
      cases hdefined
    | false =>
      rw [get?_finished names hnodup, wholeOf, hempty]
      simp only [Bool.false_eq_true, if_false]
      rw [Entries.get?_put, if_pos rfl, Option.map_some, sortedWithin_obj, hD]
      rfl
  have hfound : Entries.get? D name =
      some (Json.sortedWithin (Json.keepsOrder name) (n.data (.obj e))) := by
    rw [hD, get?_finishedDefinitions, ← hname, hdefined, Option.map_some]
  obtain ⟨definitions, hread, rfl⟩ := h
  rw [hbrought, readDefinitions_obj, Except.ok.injEq] at hread
  subst hread
  -- all that is left beside the definitions is the reference
  obtain ⟨b, hb⟩ : ∃ b, b = finishedBody names inUse (referenceTo label) := ⟨_, rfl⟩
  have hget (k : String) : Entries.get? b k =
      if k = "$ref" then some (.str (definitionRef name)) else none := by
    rw [hb, get?_finishedBody names hnodup rfl, ← hname, Renaming.get?_dataOfEntries, referenceTo,
      Entries.get?, Entries.get?_nil]
    by_cases hk : k = "$ref"
    · rw [if_pos hk.symm, if_pos hk, Option.map_some, Option.map_some, Renaming.data,
        Renaming.text_definitionRef, ← hlabel, Json.sortedWithin_str]
    · rw [if_neg (Ne.symm hk), if_neg hk]
      rfl
  have hrefers : Refers b name := by rw [Refers, hget, if_pos rfl]
  have hbare : Entries.without (expandEntries D [] b).value "$ref" = [] := by
    rw [Entries.without, List.filter_eq_nil_iff, value_expandEntries]
    intro p hp hk
    have hmem : p.1 ∈ Entries.keys b := by
      rw [← Entries.keys_mapValues (fun j => (expand D [] j).value) b]
      exact Entries.mem_keys_of_mem hp
    have hnone : Entries.get? b p.1 = none := by
      rw [hget, if_neg (by simpa using hk)]
    exact Entries.get?_eq_none_iff.mp hnone hmem
  obtain ⟨r, hr', hall⟩ := exists_shown_obj n D [name] (Json.keepsOrder name) hn hr
  refine ⟨r, ?_, n, D, [name], fun k _ => hall k⟩
  change (expand D [] (.obj (finishedBody names inUse (referenceTo label)))).value = _
  rw [← hb, expand_followed (referenceOf?_eq_some_iff.mpr ⟨hrefers, rfl⟩) List.not_mem_nil hfound,
    hbare, hr']
  rfl

end Inlined

theorem Sheet.IsLone.mirrors {s : Sheet} {label : String} {e whole : Entries Json}
    (hs : s.IsLone label e) (hn : (Entries.keys e).Nodup)
    (h : s.finish (referenceTo label) = .ok whole) {j : Json} (hj : Inlines whole j) :
    hasUnhashable (.obj e) = false ∧ ∃ shown, j = .obj shown ∧ Mirrors e shown := by
  obtain ⟨hr, hhash, rfl | ⟨inUse, -, rfl⟩⟩ := hs.finish_eq_ok h
  · refine ⟨hhash, mirrors_of_inlined_reference hn hr ?_ hj⟩
    rw [hs.definitions]
    exact if_pos rfl
  · exact ⟨hhash, mirrors_of_inlined_body hn hr hj⟩

/-! ## What a record shows -/

/-- What a record by itself shows, `ps` being its properties. -/
structure Record.MirroredBy (r : Record Shape) (ps : List Property) (shown : Entries Json) :
    Prop where
  heads : (ps.map fun p => (p.name, p.isRequired)) = r.fields.map fun f =>
    (propertyName (Shape.sideIn r.config .input) r.config f,
      isRequired (Shape.sideIn r.config .input) r.config f.facts)
  mirrors : Mirrors (recordEntries r.name r.doc r.config ps) shown
  hashable : hasUnhashable (.obj (recordEntries r.name r.doc r.config ps)) = false

theorem nodup_keys_recordEntries (name : String) (doc : Option String) (config : Config)
    (ps : List Property) : (Entries.keys (recordEntries name doc config ps)).Nodup := by
  rw [recordEntries_eq]
  refine Entries.nodup_keys_override ?_ _
  exact List.nodup_cons.mpr ⟨notMem_keys_recordRest (k := "properties") _ (by decide),
    nodup_keys_recordRest _⟩

theorem Layout.IsLone.mirrored {c : Catalog} {key : Key} {r : Record Shape} {l : Layout}
    (hl : l.IsLone key r) {e : Entries Json} (h : l.schema c .input = .ok e) {j : Json}
    (hj : (inlined e).outcome = .ok j) : ∃ ps shown, j = .obj shown ∧ r.MirroredBy ps shown ∧
      Shape.MakeProperties c .input r.config r.fields ps := by
  obtain ⟨ps, s, label, hheads, hmake, hs, hfinish⟩ := hl.schema_eq_ok h
  obtain ⟨hhash, shown, rfl, hmirrors⟩ :=
    hs.mirrors (nodup_keys_recordEntries _ _ _ _) hfinish (inlines_of_inlined hj)
  exact ⟨ps, shown, rfl, ⟨hheads, hmirrors, hhash⟩, hmake⟩

/-! ## Names in what a record shows -/

/-- The names that the schema of an object requires. -/
def Json.requiredNames (j : Json) : List String :=
  match j.get? "required" with
  | some (.arr items) => items.filterMap Json.text?
  | _ => []

/-- The names of the properties that the schema of an object describes. -/
def Json.propertyNames (j : Json) : List String :=
  match j.get? "properties" with
  | some (.obj properties) => Entries.keys properties
  | _ => []

theorem key_ne_of_hashable {e : Entries Json} (h : hasUnhashableEntry e = false) {k : String}
    {inner : Entries Json} (hm : (k, .obj inner) ∈ e) :
    k ≠ "$ref" ∧ hasUnhashableEntry inner = false := by
  induction e with
  | nil => cases hm
  | cons p rest ih =>
    rw [hasUnhashableEntry.eq_def] at h
    dsimp only at h
    rw [Bool.or_eq_false_iff] at h
    rcases List.mem_cons.mp hm with rfl | hm
    · simpa using h.1
    · exact ih h.2 hm

/-! ## What mirrors a record -/

namespace Mirrors
variable {name : String} {doc : Option String} {config : Config} {ps : List Property}
  {shown : Entries Json}

theorem get?_record (h : Mirrors (recordEntries name doc config ps) shown) {k : String}
    (hk : k ≠ "$defs") (hextra : Entries.get? (Config.schemaEntries config) k = none) :
    ∃ (n : Renaming) (definitions : Entries Json) (stack : List String),
      Entries.get? shown k = (Entries.get? (("properties", .obj (propertiesOf ps)) ::
        recordRest name doc config (requiredOf ps)) k).map fun v =>
          (expand definitions stack (Json.sortedWithin (Json.keepsOrder k) (n.data v))).value := by
  obtain ⟨n, definitions, stack, hall⟩ := h
  refine ⟨n, definitions, stack, ?_⟩
  rw [hall k hk, recordEntries_eq,
    Entries.get?_override_of_notMem (Entries.get?_eq_none_iff.mp hextra)]

theorem type (h : Mirrors (recordEntries name doc config ps) shown)
    (hextra : Entries.get? (Config.schemaEntries config) "type" = none) :
    Entries.get? shown "type" = some (.str "object") := by
  obtain ⟨n, definitions, stack, hget⟩ := h.get?_record (k := "type") (by decide) hextra
  have htype : Entries.get? (recordRest name doc config []) "type" = some (.str "object") := by
    rw [recordRest]
    rfl
  rw [Entries.get?, if_neg (by decide), get?_recordRest, if_neg (by decide), htype, Option.map_some,
    Renaming.data, Renaming.text_of_none n (by decide), Json.sortedWithin_str,
    expand_scalar _ _ (fun _ h => by cases h) fun _ h => by cases h] at hget
  exact hget

theorem properties (h : Mirrors (recordEntries name doc config ps) shown)
    (hhash : hasUnhashable (.obj (recordEntries name doc config ps)) = false)
    (hextra : Entries.get? (Config.schemaEntries config) "properties" = none) :
    ∃ properties, Entries.get? shown "properties" = some (.obj properties) ∧
      Entries.keys properties = Entries.keys (propertiesOf ps) ∧
      ∃ (n : Renaming) (definitions : Entries Json) (stack : List String), ∀ k,
        Entries.get? properties k = (Entries.get? (propertiesOf ps) k).map fun v =>
          (expand definitions stack (Json.sortedWithin (Json.keepsOrder k) (n.data v))).value := by
  obtain ⟨n, definitions, stack, hget⟩ := h.get?_record (k := "properties") (by decide) hextra
  rw [Entries.get?, if_pos rfl, Option.map_some, Renaming.data, Renaming.dataOfEntries_eq,
    Json.sortedWithin, if_pos (by decide)] at hget
  have hmem : ("properties", Json.obj (propertiesOf ps)) ∈ recordEntries name doc config ps := by
    refine Entries.mem_of_get? ?_
    rw [recordEntries_eq, Entries.get?_override_of_notMem (Entries.get?_eq_none_iff.mp hextra)]
    exact if_pos rfl
  -- no property goes by the name of references
  have hplain : ∀ p ∈ propertiesOf ps, p.1 ≠ "$ref" := by
    intro p hp
    rw [hasUnhashable] at hhash
    have hinner := (key_ne_of_hashable hhash hmem).2
    rcases Entries.mem_of_mem_override hp with hp' | hp'
    · cases hp'
    · obtain ⟨q, -, rfl⟩ := List.mem_map.mp hp'
      exact (key_ne_of_hashable hinner hp).1
  have hkeys : Entries.keys (Json.sortedEntries (Entries.mapValues n.data (propertiesOf ps))) =
      Entries.keys (propertiesOf ps) := by
    rw [Json.keys_sortedEntries, Entries.keys_mapValues]
  have hrefers : ∀ name, ¬ Refers (Json.sortedEntries
      (Entries.mapValues n.data (propertiesOf ps))) name := by
    intro name hr
    have hm : "$ref" ∈ Entries.keys (propertiesOf ps) :=
      hkeys ▸ Entries.mem_keys_of_mem (Entries.mem_of_get? hr)
    obtain ⟨p, hp, hk⟩ := List.mem_map.mp hm
    exact hplain p hp hk
  rw [expand_plain (referenceOf?_eq_none_iff.mpr hrefers)] at hget
  refine ⟨_, hget, ?_, n, definitions, stack, fun k => ?_⟩
  · rw [value_expandEntries, Entries.keys_mapValues, hkeys]
  · rw [value_expandEntries, Entries.get?_mapValues, Json.get?_sortedEntries, Entries.get?_mapValues,
      Option.map_map, Option.map_map]
    rfl

/-- What a record requires are the names of the properties that have to be present, but that those
which read as references may be others. -/
theorem requiredNames_eq (h : Mirrors (recordEntries name doc config ps) shown)
    (hextra : Entries.get? (Config.schemaEntries config) "required" = none) :
    ∃ n : Renaming, (Json.obj shown).requiredNames = (requiredOf ps).map n.text := by
  obtain ⟨n, definitions, stack, hget⟩ := h.get?_record (k := "required") (by decide) hextra
  refine ⟨n, ?_⟩
  rw [Entries.get?, if_neg (by decide), get?_recordRest, if_pos rfl] at hget
  rw [Json.requiredNames, Json.get?, Json.entries_obj, hget]
  by_cases hnone : (requiredOf ps).isEmpty = true
  · rw [if_pos hnone, List.isEmpty_iff.mp hnone]
    rfl
  · rw [if_neg hnone, Option.map_some, Json.strings, Renaming.data, Renaming.dataOfList_eq,
      Json.sortedWithin, Json.sortedList_eq, expand_arr]
    dsimp only
    rw [value_expandList, List.map_map, List.map_map, List.map_map, List.filterMap_map]
    refine List.filterMap_eq_map_iff_forall_eq_some.mpr fun name _ => ?_
    change Json.text? (expand definitions stack (Json.sortedWithin _ (n.data (.str name)))).value =
      some (n.text name)
    rw [Renaming.data, Json.sortedWithin_str, expand_scalar (j := .str (n.text name)) _ _
      (fun _ h => by cases h) fun _ h => by cases h]
    rfl

theorem mem_requiredNames (h : Mirrors (recordEntries name doc config ps) shown)
    (hextra : Entries.get? (Config.schemaEntries config) "required" = none) {property : String}
    (hname : definitionName? property = none) : property ∈ (Json.obj shown).requiredNames ↔
      (property, true) ∈ ps.map fun p => (p.name, p.isRequired) := by
  obtain ⟨n, hrequired⟩ := h.requiredNames_eq hextra
  have htext (s : String) : n.text s = property ↔ s = property := by
    constructor
    · intro hs
      rw [Renaming.text] at hs
      split at hs
      · rw [← hs, definitionName?_definitionRef] at hname
        cases hname
      · exact hs
    · rintro rfl
      exact Renaming.text_of_none n hname
  rw [hrequired, List.mem_map]
  simp only [htext, exists_eq_right, requiredOf, List.mem_map, List.mem_filter, Prod.mk.injEq]
  constructor
  · rintro ⟨p, ⟨hp, hr⟩, hn⟩
    exact ⟨p, hp, hn, hr⟩
  · rintro ⟨p, hp, hn, hr⟩
    exact ⟨p, ⟨hp, hr⟩, hn⟩

end Mirrors

namespace Record.MirroredBy
variable {r : Record Shape} {ps : List Property} {shown : Entries Json}

theorem mirrors_properties (h : r.MirroredBy ps shown)
    (hextra : Entries.get? (Config.schemaEntries r.config) "properties" = none) :
    ∃ properties, Entries.get? shown "properties" = some (.obj properties) ∧
      Entries.keys properties = Entries.keys (propertiesOf ps) ∧
      ∃ (n : Renaming) (definitions : Entries Json) (stack : List String), ∀ k,
        Entries.get? properties k = (Entries.get? (propertiesOf ps) k).map fun v =>
          (expand definitions stack (Json.sortedWithin (Json.keepsOrder k) (n.data v))).value :=
  h.mirrors.properties h.hashable hextra

theorem mem_requiredNames (h : r.MirroredBy ps shown)
    (hextra : Entries.get? (Config.schemaEntries r.config) "required" = none) {name : String}
    (hname : definitionName? name = none) : name ∈ (Json.obj shown).requiredNames ↔
      (name, true) ∈ r.fields.map fun f =>
        (propertyName (Shape.sideIn r.config .input) r.config f,
          isRequired (Shape.sideIn r.config .input) r.config f.facts) := by
  rw [h.mirrors.mem_requiredNames hextra hname, h.heads]

end Record.MirroredBy
end Procedoc
