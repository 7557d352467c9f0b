import Procedoc.Proofs.Keeping.Shaping
import Procedoc.Proofs.Rendering.Properties

/-! # Schemas that refer to definitions only

`Norm.Writes` says of the entries of a schema that they are such as a norm allows, but that there
may be references to definitions, and properties under any names.  What schemas are put together
from this way is so put together (`Norm.writes_mappingOf`, `Norm.writes_anyOf`,
`Norm.writes_recordEntries`). -/

namespace Procedoc
set_option autoImplicit false

variable {N : Norm}

/-! ## Entries of schemas -/

namespace Norm

/-- Whether data may stand under a key in a schema: under one that the norm allows, as a reference to
a definition, or as the schema of a property. -/
def Permits (N : Norm) (isName : Bool) (key : String) (j : Json) : Prop :=
  N.key key ∨ if isName then j.isObject = true else key = "$ref" ∧ ∃ name, j = .str (definitionRef name)

/-- Whether a norm permits all data under keys in data; `named` tells whether the keys of the data
itself are names of properties. -/
def Allows (N : Norm) (named : Bool) (j : Json) : Prop := j.Fits N.Permits named

/-- Whether the entries of a schema are such as a norm permits. -/
def Writes (N : Norm) (e : Entries Json) : Prop := N.Allows false (.obj e)

theorem allows_of_obeys {j : Json} (h : j.Obeys N) {named : Bool} : N.Allows named j :=
  Json.Fits.mono (fun _ _ _ hk => .inl hk) h.renamed

theorem writes_iff {e : Entries Json} : N.Writes e ↔
    ∀ p ∈ e, N.Permits false p.1 p.2 ∧ N.Allows (Json.takesNames p.1) p.2 := Json.fits_obj

theorem allows_arr {named : Bool} {items : List Json} :
    N.Allows named (.arr items) ↔ ∀ j ∈ items, N.Allows false j := Json.fits_arr

theorem allows_str {named : Bool} (s : String) : N.Allows named (.str s) := trivial

theorem allows_bool {named : Bool} (b : Bool) : N.Allows named (.bool b) := trivial

theorem allows_int {named : Bool} (n : Int) : N.Allows named (.int n) := trivial

theorem permits_keyword {keyword : String} (h : keyword ≠ "$ref" ∧ keyword ≠ "$defs") (j : Json) :
    N.Permits false keyword j := .inl (N.key_of_ne keyword h.1 h.2)

theorem writes_of_obeys {e : Entries Json} (h : (Json.obj e).Obeys N) : N.Writes e := allows_of_obeys h

theorem writes_nil : N.Writes [] := writes_of_obeys Json.obeys_nil

theorem writes_cons (keyword : String) (h : keyword ≠ "$ref" ∧ keyword ≠ "$defs") {j : Json}
    (hj : N.Allows (Json.takesNames keyword) j) {e : Entries Json} (he : N.Writes e) :
    N.Writes ((keyword, j) :: e) :=
  writes_iff.mpr (List.forall_mem_cons.mpr ⟨⟨permits_keyword h j, hj⟩, writes_iff.mp he⟩)

theorem writes_put {e : Entries Json} (he : N.Writes e) (keyword : String)
    (h : keyword ≠ "$ref" ∧ keyword ≠ "$defs") {j : Json}
    (hj : N.Allows (Json.takesNames keyword) j) : N.Writes (Entries.put e keyword j) :=
  writes_iff.mpr fun p hp => (Entries.mem_of_mem_put hp).elim (writes_iff.mp he p)
    fun heq => heq ▸ ⟨permits_keyword h j, hj⟩

theorem writes_override {e top : Entries Json} (he : N.Writes e) (ht : (Json.obj top).Obeys N) :
    N.Writes (Entries.override e top) :=
  writes_iff.mpr fun p hp => (Entries.mem_of_mem_override hp).elim (writes_iff.mp he p)
    (writes_iff.mp (writes_of_obeys ht) p)

theorem writes_filter {e : Entries Json} (he : N.Writes e) (p : String × Json → Bool) :
    N.Writes (e.filter p) := writes_iff.mpr fun q hq => writes_iff.mp he q (List.mem_filter.mp hq).1

theorem writes_entries {j : Json} (h : N.Allows false j) : N.Writes j.entries := by
  cases j with
  | obj e => exact h
  | _ => exact writes_nil

theorem writes_referenceTo (name : String) : N.Writes (referenceTo name) :=
  writes_iff.mpr (List.forall_mem_singleton.mpr ⟨.inr ⟨rfl, name, rfl⟩, trivial⟩)

theorem writes_onto {e : Entries Json} (he : N.Writes e) {notes : Notes} (hn : notes.Obeys N) :
    N.Writes (notes.onto e) := by
  refine writes_override (writes_override he hn.updates) ?_
  unfold Notes.added
  split
  · rename_i heq
    exact hn.extra _ heq
  · exact Json.obeys_obj.mpr (List.forall_mem_singleton.mpr (N.entry _ (by decide) (by decide) trivial))
  · exact Json.obeys_nil

end Norm

open Procedoc.Norm

/-! ## Types without parts -/

theorem obeys_typed (name : String) : (Json.obj (typed name)).Obeys N :=
  Json.obeys_obj.mpr (List.forall_mem_singleton.mpr (N.entry "type" (by decide) (by decide) trivial))

theorem obeys_formatted (name format : String) : (Json.obj (formatted name format)).Obeys N := by
  refine Json.obeys_obj.mpr (List.forall_mem_cons.mpr ⟨?_, List.forall_mem_singleton.mpr ?_⟩)
  · exact N.entry "type" (by decide) (by decide) trivial
  · exact N.entry "format" (by decide) (by decide) trivial

theorem Grip.keyword?_ne_words {g : Grip} {k : BoundKind} {keyword : String}
    (h : g.keyword? k = some keyword) : keyword ≠ "$ref" ∧ keyword ≠ "$defs" := by
  cases g <;> cases k <;> cases h <;> exact ⟨by decide, by decide⟩

theorem Grip.obeys_shown (g : Grip) {bounds : List Bound} (h : ∀ b ∈ bounds, b.Obeys N) :
    (Json.obj (g.shown bounds)).Obeys N := by
  refine Json.obeys_obj.mpr fun p hp => ?_
  obtain ⟨b, hb, hsome⟩ := List.mem_filterMap.mp hp
  obtain ⟨keyword, hk, rfl⟩ := Option.map_eq_some_iff.mp hsome
  obtain ⟨hr, hd⟩ := keyword?_ne_words hk
  exact N.entry keyword hr hd (h b hb)

theorem obeys_textEntries {config : Config} (hconfig : (Json.obj config).Obeys N)
    {bounds : List Bound} (h : ∀ b ∈ bounds, b.Obeys N) :
    (Json.obj (textEntries config bounds)).Obeys N := by
  refine Json.obeys_obj.mpr (List.forall_mem_append.mpr ⟨List.forall_mem_append.mpr
    ⟨Json.obeys_obj.mp (obeys_typed "string"), Json.obeys_obj.mp (Grip.text.obeys_shown h)⟩, ?_⟩)
  intro p hp
  obtain ⟨⟨key, limit⟩, hmem, hsome⟩ := List.mem_filterMap.mp hp
  dsimp only at hsome
  split at hsome
  · cases hsome
  obtain ⟨l, hl, rfl⟩ := Option.map_eq_some_iff.mp hsome
  rcases List.mem_pair.mp hmem with heq | heq <;> cases heq
  · exact N.entry "minLength" (by decide) (by decide)
      (hconfig.get? (Option.filter_eq_some_iff.mp hl).1)
  · exact N.entry "maxLength" (by decide) (by decide)
      (hconfig.get? (Option.filter_eq_some_iff.mp hl).1)

theorem Norm.writes_listOf {item : Json} (h : N.Allows false item) (unique : Bool) :
    N.Writes (listOf item unique) := by
  have hbase : N.Writes [("type", .str "array"), ("items", item)] :=
    writes_cons "type" (by decide) (allows_str _) (writes_cons "items" (by decide) h writes_nil)
  rw [listOf]
  split
  · exact writes_put hbase "uniqueItems" (by decide) (allows_bool _)
  · exact hbase

theorem obeys_momentEntries (config : Config) (format : String) :
    (Json.obj (momentEntries config format)).Obeys N := by
  unfold momentEntries
  split
  · exact obeys_formatted _ _
  · exact obeys_typed _

theorem Plain.writes_entries? {config : Config} (hconfig : (Json.obj config).Obeys N) {p : Plain}
    {e : Entries Json} (h : p.entries? config = some e) : N.Writes e := by
  cases p <;> cases h
  case str => exact writes_of_obeys (obeys_textEntries hconfig fun _ hb => by cases hb)
  case int | float | bool | none => exact writes_of_obeys (obeys_typed _)
  case bytes | uuid => exact writes_of_obeys (obeys_formatted _ _)
  case any | object => exact writes_nil
  case date | datetime | time => exact writes_of_obeys (obeys_momentEntries config _)
  case list | tuple | set | frozenset => exact writes_listOf writes_nil _
  case dict =>
    exact writes_cons "type" (by decide) (allows_str _)
      (writes_cons "additionalProperties" (by decide) (allows_bool _) writes_nil)

/-! ## Sets of values -/

theorem obeys_commonType (values : List Json) : (Json.obj (commonType values)).Obeys N := by
  unfold commonType
  split
  · exact Json.obeys_nil
  · split
    · split
      · exact obeys_typed _
      · exact Json.obeys_nil
    · exact Json.obeys_nil

theorem obeys_valueSet {values : List Json} (h : ∀ j ∈ values, j.Obeys N) :
    (Json.obj (valueSet values)).Obeys N := by
  have htype := Json.obeys_obj.mp (obeys_commonType (N := N) values)
  unfold valueSet
  split
  · refine Json.obeys_obj.mpr (List.forall_mem_cons.mpr ⟨?_, htype⟩)
    exact N.entry "const" (by decide) (by decide) (h _ (List.mem_singleton_self _))
  · refine Json.obeys_obj.mpr (List.forall_mem_cons.mpr ⟨?_, htype⟩)
    exact N.entry "enum" (by decide) (by decide) (Json.obeys_arr.mpr h)

theorem Enumeration.obeys_definition {e : Enumeration} (h : ∀ j ∈ e.values, j.Obeys N) :
    (Json.obj e.definition).Obeys N := by
  refine Json.obeys_obj.mpr (List.forall_mem_append.mpr ⟨List.forall_mem_append.mpr
    ⟨List.forall_mem_cons.mpr ⟨?_, List.forall_mem_singleton.mpr ?_⟩, ?_⟩, ?_⟩)
  · exact N.entry "enum" (by decide) (by decide) (Json.obeys_arr.mpr h)
  · exact N.entry "title" (by decide) (by decide) trivial
  · intro p hp
    obtain ⟨d, -, rfl⟩ := Option.map_eq_some_iff.mp (Option.mem_toList.mp hp)
    exact N.entry "description" (by decide) (by decide) trivial
  · exact fun p hp => Json.obeys_obj.mp (obeys_commonType e.values) p (List.mem_filter.mp hp).1

namespace Norm

/-! ## Containers and unions -/

theorem writes_tupleOf {items : List (Entries Json)} (h : ∀ e ∈ items, N.Writes e) :
    N.Writes (tupleOf items) := by
  have hlengths : N.Writes [("minItems", .int items.length), ("maxItems", .int items.length)] :=
    writes_cons "minItems" (by decide) (allows_int _)
      (writes_cons "maxItems" (by decide) (allows_int _) writes_nil)
  rw [tupleOf]
  split
  · exact writes_cons "type" (by decide) (allows_str _) hlengths
  · refine writes_cons "type" (by decide) (allows_str _)
      (writes_cons "prefixItems" (by decide) (allows_arr.mpr ?_) hlengths)
    intro j hj
    obtain ⟨e, he, rfl⟩ := List.mem_map.mp hj
    exact h e he

theorem writes_contentsOf (pattern : Option Json) {values : Entries Json} (h : N.Writes values) :
    N.Writes [contentsOf pattern values] := by
  unfold contentsOf
  split
  · refine writes_cons "patternProperties" (by decide)
      (Json.fits_obj.mpr (List.forall_mem_singleton.mpr ?_)) writes_nil
    exact ⟨.inr rfl, h⟩
  · split
    · exact writes_cons "additionalProperties" (by decide) (allows_bool _) writes_nil
    · exact writes_cons "additionalProperties" (by decide) h writes_nil

theorem writes_mappingOf {key value : Entries Json} (hkey : N.Writes key) (hvalue : N.Writes value) :
    N.Writes (mappingOf key value) := by
  have hnames : N.Writes
      (if Entries.has key "$ref" then key else Entries.withoutAll key ["pattern", "title"]) := by
    split
    · exact hkey
    · exact writes_filter hkey _
  rw [mappingOf_eq]
  dsimp only
  have hcontents := writes_contentsOf
    (if Entries.has key "$ref" then none else Entries.get? key "pattern")
    (writes_filter hvalue fun p => p.1 != "title")
  have hrest := writes_iff.mp hcontents _ (List.mem_singleton_self _)
  rw [← Entries.without] at hcontents hrest
  generalize (if Entries.has key "$ref" then key
    else Entries.withoutAll key ["pattern", "title"]) = names at hnames ⊢
  generalize contentsOf _ _ = contents at hcontents hrest ⊢
  split
  · refine writes_cons "type" (by decide) (allows_str _)
      (writes_iff.mpr (List.forall_mem_cons.mpr ⟨hrest, ?_⟩))
    exact writes_iff.mp
      (writes_cons "propertyNames" (by decide) (writes_filter hnames _) writes_nil)
  · exact writes_cons "type" (by decide) (allows_str _) hcontents

theorem allows_alternativesOf {j : Json} (h : N.Allows false j) :
    ∀ x ∈ alternativesOf j, N.Allows false x := by
  unfold alternativesOf
  split
  · exact allows_arr.mp (writes_iff.mp h _ (List.mem_singleton_self _)).2
  · exact List.forall_mem_singleton.mpr h

theorem writes_anyOf {schemas : List (Entries Json)} (h : ∀ e ∈ schemas, N.Writes e) :
    N.Writes (anyOf schemas) := by
  have hall : ∀ x ∈ Json.distinct ((schemas.map Json.obj).flatMap alternativesOf),
      N.Allows false x := by
    intro x hx
    obtain ⟨j, hj, hx⟩ := List.mem_flatMap.mp (Renaming.mem_of_mem_distinct hx)
    obtain ⟨e, he, rfl⟩ := List.mem_map.mp hj
    exact allows_alternativesOf (h e he) x hx
  unfold anyOf
  split
  · rename_i j heq
    exact writes_entries (hall j (heq ▸ List.mem_singleton_self j))
  · exact writes_cons "anyOf" (by decide) (allows_arr.mpr hall) writes_nil

theorem writes_unionEntries {schemas : List (Entries Json)} (h : ∀ e ∈ schemas, N.Writes e) :
    N.Writes (unionEntries schemas) := by
  unfold unionEntries
  split
  · exact h _ (List.mem_singleton_self _)
  · exact writes_anyOf h

theorem writes_orNull {schema : Entries Json} (h : N.Writes schema) : N.Writes (orNull schema) := by
  unfold orNull
  split
  · exact h
  · exact writes_anyOf (List.forall_mem_cons.mpr
      ⟨h, List.forall_mem_singleton.mpr (writes_of_obeys (obeys_typed "null"))⟩)

/-! ## Records -/

theorem allows_propertiesOf {ps : List Property} (h : ∀ p ∈ ps, N.Writes p.schema) :
    N.Allows true (.obj (propertiesOf ps)) := by
  refine Json.fits_obj.mpr fun q hq => ?_
  obtain ⟨p, hp, rfl⟩ := mem_of_mem_propertiesOf hq
  exact ⟨.inr rfl, h p hp⟩

theorem writes_recordRest (name : String) (doc : Option String) {config : Config}
    (hconfig : (Json.obj config).Obeys N) (required : List String) :
    N.Writes (recordRest name doc config required) := by
  refine writes_of_obeys (Json.obeys_obj.mpr ?_)
  unfold recordRest
  refine List.forall_mem_append.mpr ⟨List.forall_mem_append.mpr ⟨List.forall_mem_append.mpr
    ⟨?_, List.forall_mem_cons.mpr ⟨?_, List.forall_mem_singleton.mpr ?_⟩⟩, ?_⟩, ?_⟩
  · split
    · exact fun _ hp => by cases hp
    · refine List.forall_mem_singleton.mpr (N.entry "required" (by decide) (by decide) ?_)
      exact Json.fits_strings _
  · refine N.entry "title" (by decide) (by decide) ?_
    cases ht : Config.title? config with
    | none => exact Json.obeys_str _
    | some t => exact hconfig.get? (Option.filter_eq_some_iff.mp ht).1
  · exact N.entry "type" (by decide) (by decide) trivial
  · intro p hp
    obtain ⟨v, hv, rfl⟩ := Option.map_eq_some_iff.mp (Option.mem_toList.mp hp)
    obtain ⟨d, -, rfl⟩ := Option.map_eq_some_iff.mp hv
    exact N.entry "description" (by decide) (by decide) trivial
  · intro p hp
    obtain ⟨v, hv, rfl⟩ := Option.map_eq_some_iff.mp (Option.mem_toList.mp hp)
    obtain ⟨b, -, rfl⟩ := Option.map_eq_some_iff.mp hv
    exact N.entry "additionalProperties" (by decide) (by decide) trivial

theorem obeys_schemaEntries {config : Config} (hconfig : (Json.obj config).Obeys N) :
    (Json.obj (Config.schemaEntries config)).Obeys N := by
  unfold Config.schemaEntries
  split
  · rename_i heq
    exact hconfig.get? heq
  · exact Json.obeys_nil

theorem writes_recordEntries (name : String) (doc : Option String) {config : Config}
    (hconfig : (Json.obj config).Obeys N) {ps : List Property} (h : ∀ p ∈ ps, N.Writes p.schema) :
    N.Writes (recordEntries name doc config ps) := by
  rw [recordEntries_eq]
  refine writes_override (writes_cons "properties" (by decide) (allows_propertiesOf h) ?_)
    (obeys_schemaEntries hconfig)
  exact writes_recordRest name doc hconfig _

end Norm
end Procedoc
