import Mathlib.Data.List.Nodup
import Procedoc.Proofs.Rendering.Citing
import Procedoc.Writing

/-! # Parts of schemas

What schemas are put together from cites only what its parts cite (`citesOnly_mappingOf`,
`citesOnly_anyOf`), and other labels for what is cited change nothing else in it
(`mapValues_mappingOf`, `mapValues_anyOf`). -/
namespace Procedoc
set_option autoImplicit false

/-! ## Parts of schemas that cite -/

variable {known : String → Prop}

instance (s : String) : Decidable (Silent s) :=
  decidable_of_iff (definitionName? s = none ∧ s ≠ "$ref")
    ⟨fun h => ⟨h.1, h.2⟩, fun h => ⟨h.name, h.word⟩⟩

theorem inert_str {s : String} (h : Silent s) : Inert (.str s) := citesOnly_str.mpr h

theorem inert_typed {name : String} (h : Silent name) : Inert (.obj (typed name)) :=
  citesOnly_entry List.not_mem_nil (by decide) (by decide) (inert_str h) citesOnly_nil

theorem inert_formatted {name format : String} (h : Silent name) (h' : Silent format) :
    Inert (.obj (formatted name format)) := by
  refine citesOnly_entry (by simp [Entries.keys]) (by decide) (by decide) (inert_str h) ?_
  exact citesOnly_entry List.not_mem_nil (by decide) (by decide) (inert_str h') citesOnly_nil

theorem citesOnly_listOf {item : Json} (h : CitesOnly known item) (unique : Bool) :
    CitesOnly known (.obj (listOf item unique)) := by
  have hbase : CitesOnly known (.obj [("type", .str "array"), ("items", item)]) := by
    refine citesOnly_entry (by simp [Entries.keys]) (by decide) (by decide)
      (.of_inert (inert_str (by decide))) ?_
    exact citesOnly_entry List.not_mem_nil (by decide) (by decide) h citesOnly_nil
  rw [listOf]
  split
  · exact citesOnly_put hbase (by decide) (fun _ _ h => by cases h) (citesOnly_bool true)
  · exact hbase

theorem citesOnly_tupleOf {items : List (Entries Json)}
    (h : ∀ e ∈ items, CitesOnly known (.obj e)) : CitesOnly known (.obj (tupleOf items)) := by
  have hlengths : CitesOnly known (.obj [("minItems", .int items.length),
      ("maxItems", .int items.length)]) := by
    refine citesOnly_entry (by simp [Entries.keys]) (by decide) (by decide) (citesOnly_int _) ?_
    exact citesOnly_entry List.not_mem_nil (by decide) (by decide) (citesOnly_int _) citesOnly_nil
  have harray : CitesOnly known (.str "array") := .of_inert (inert_str (by decide))
  rw [tupleOf]
  split
  · exact citesOnly_entry (by simp [Entries.keys]) (by decide) (by decide) harray hlengths
  · refine citesOnly_entry (by simp [Entries.keys]) (by decide) (by decide) harray ?_
    refine citesOnly_entry (by simp [Entries.keys]) (by decide) (by decide) ?_ hlengths
    refine citesOnly_arr.mpr fun x hx => ?_
    obtain ⟨e, he, rfl⟩ := List.mem_map.mp hx
    exact h e he

theorem citesOnly_of_get? {e : Entries Json} (h : CitesOnly known (.obj e)) {k : String} {v : Json}
    (hk : k ≠ "$ref") (hv : Entries.get? e k = some v) : CitesOnly known v :=
  (citesOnly_obj.mp h).2.2.1 (k, v) (Entries.mem_of_get? hv) hk

/-- What the schema of a mapping says of the values, given the pattern on the keys. -/
def contentsOf (pattern : Option Json) (values : Entries Json) : String × Json :=
  match pattern with
  | some (.str p) => ("patternProperties", .obj [(p, .obj values)])
  | _ =>
    if values.isEmpty then ("additionalProperties", .bool true)
    else ("additionalProperties", .obj values)

theorem mappingOf_eq (key value : Entries Json) : mappingOf key value =
    let isRef := Entries.has key "$ref"
    let names := if isRef then key else Entries.withoutAll key ["pattern", "title"]
    let contents := contentsOf (if isRef then none else Entries.get? key "pattern")
      (Entries.without value "title")
    if Entries.get? names "type" == some (.str "string") && names.length > 1 || isRef then
      [("type", .str "object"), contents, ("propertyNames", .obj (Entries.without names "type"))]
    else [("type", .str "object"), contents] := rfl

theorem contentsOf_key (pattern : Option Json) (values : Entries Json) :
    (contentsOf pattern values).1 = "patternProperties" ∨
      (contentsOf pattern values).1 = "additionalProperties" := by
  rw [contentsOf.eq_def]
  split
  · exact .inl rfl
  · split <;> exact .inr rfl

theorem citesOnly_contentsOf {pattern : Option Json} {values : Entries Json}
    (hp : ∀ v, pattern = some v → CitesOnly known v) (hv : CitesOnly known (.obj values)) :
    CitesOnly known (contentsOf pattern values).2 := by
  rw [contentsOf.eq_def]
  split
  · rename_i p
    have hsilent := citesOnly_str.mp (hp _ rfl)
    exact citesOnly_cons List.not_mem_nil hsilent.word (fun _ _ h => by cases h) hv citesOnly_nil
  · split
    · exact citesOnly_bool true
    · exact hv

theorem citesOnly_mappingOf {key value : Entries Json} (hkey : CitesOnly known (.obj key))
    (hvalue : CitesOnly known (.obj value)) : CitesOnly known (.obj (mappingOf key value)) := by
  have hobject : CitesOnly known (.str "object") := .of_inert (inert_str (by decide))
  have hvalues : CitesOnly known (.obj (Entries.without value "title")) := citesOnly_filter hvalue _
  rw [mappingOf_eq]
  dsimp only
  have hpattern : ∀ v, (if Entries.has key "$ref" then none else Entries.get? key "pattern") =
      some v → CitesOnly known v := by
    intro v hv
    split at hv
    · cases hv
    · exact citesOnly_of_get? hkey (by decide) hv
  have hcontents := citesOnly_contentsOf hpattern hvalues
  have hk := contentsOf_key (if Entries.has key "$ref" then none else Entries.get? key "pattern")
    (Entries.without value "title")
  have hnames : CitesOnly known (.obj
      (if Entries.has key "$ref" then key else Entries.withoutAll key ["pattern", "title"])) := by
    split
    · exact hkey
    · exact citesOnly_filter hkey _
  revert hcontents hk hnames
  generalize contentsOf _ _ = contents
  generalize (if Entries.has key "$ref" then key
    else Entries.withoutAll key ["pattern", "title"]) = names
  intro hcontents hk hnames
  have hne : contents.1 ≠ "$ref" ∧ contents.1 ≠ "examples" ∧ contents.1 ≠ "type" ∧
      contents.1 ≠ "propertyNames" := by
    rcases hk with hk | hk <;> rw [hk] <;> decide
  obtain ⟨k, v⟩ := contents
  split
  · refine citesOnly_entry (by simp [Entries.keys, Ne.symm hne.2.2.1]) (by decide) (by decide)
      hobject ?_
    refine citesOnly_entry (by simp [Entries.keys, hne.2.2.2]) hne.1 hne.2.1 hcontents ?_
    exact citesOnly_entry List.not_mem_nil (by decide) (by decide) (citesOnly_filter hnames _)
      citesOnly_nil
  · refine citesOnly_entry (by simp [Entries.keys, Ne.symm hne.2.2.1]) (by decide) (by decide)
      hobject ?_
    exact citesOnly_entry List.not_mem_nil hne.1 hne.2.1 hcontents citesOnly_nil

theorem citesOnly_alternativesOf {j : Json} (h : CitesOnly known j) :
    ∀ x ∈ alternativesOf j, CitesOnly known x := by
  intro x hx
  rw [alternativesOf.eq_def] at hx
  split at hx
  · rename_i items
    have := citesOnly_of_get? h (k := "anyOf") (by decide) rfl
    exact citesOnly_arr.mp this x hx
  · rw [List.mem_singleton.mp hx]
    exact h

theorem citesOnly_entries {j : Json} (h : CitesOnly known j) : CitesOnly known (.obj j.entries) := by
  cases j with
  | obj e => exact h
  | _ => exact citesOnly_nil

theorem citesOnly_anyOf {schemas : List (Entries Json)}
    (h : ∀ e ∈ schemas, CitesOnly known (.obj e)) : CitesOnly known (.obj (anyOf schemas)) := by
  have hall : ∀ x ∈ Json.distinct ((schemas.map Json.obj).flatMap alternativesOf),
      CitesOnly known x := by
    intro x hx
    obtain ⟨j, hj, hx⟩ := List.mem_flatMap.mp (Renaming.mem_of_mem_distinct hx)
    obtain ⟨e, he, rfl⟩ := List.mem_map.mp hj
    exact citesOnly_alternativesOf (h e he) x hx
  rw [anyOf.eq_def]
  split
  · rename_i j heq
    exact citesOnly_entries (hall j (heq ▸ List.mem_singleton.mpr rfl))
  · exact citesOnly_entry List.not_mem_nil (by decide) (by decide) (citesOnly_arr.mpr hall)
      citesOnly_nil

theorem citesOnly_unionEntries {schemas : List (Entries Json)}
    (h : ∀ e ∈ schemas, CitesOnly known (.obj e)) :
    CitesOnly known (.obj (unionEntries schemas)) := by
  rw [unionEntries.eq_def]
  split
  · exact h _ (List.mem_singleton.mpr rfl)
  · exact citesOnly_anyOf h

theorem inert_null : Inert nullSchema := inert_typed (by decide)

theorem citesOnly_orNull {schema : Entries Json} (h : CitesOnly known (.obj schema)) :
    CitesOnly known (.obj (orNull schema)) := by
  rw [orNull]
  split
  · exact h
  · refine citesOnly_anyOf fun e he => ?_
    rcases List.mem_cons.mp he with rfl | he
    · exact h
    · rw [List.mem_singleton.mp he]
      exact .of_inert inert_null

theorem silent_typeName {j : Json} {name : String} (h : j.typeName? = some name) : Silent name := by
  cases j <;> simp only [Json.typeName?, Option.some.injEq, reduceCtorEq] at h <;> subst h <;> decide

theorem inert_commonType (values : List Json) : Inert (.obj (commonType values)) := by
  rw [commonType.eq_def]
  split
  · exact citesOnly_nil
  · rename_i j rest
    split
    · rename_i name hname
      split
      · exact inert_typed (silent_typeName hname)
      · exact citesOnly_nil
    · exact citesOnly_nil

theorem keys_commonType (values : List Json) {k : String}
    (h : k ∈ Entries.keys (commonType values)) : k = "type" := by
  rw [commonType.eq_def] at h
  split at h
  · cases h
  · split at h
    · split at h
      · simpa [typed, Entries.keys] using h
      · cases h
    · cases h

theorem inert_valueSet {values : List Json} (h : ∀ j ∈ values, Inert j) :
    Inert (.obj (valueSet values)) := by
  have hkey : ∀ k, k ≠ "type" → k ∉ Entries.keys (commonType values) :=
    fun k hk hm => hk (keys_commonType values hm)
  rw [valueSet.eq_def]
  split
  · exact citesOnly_entry (hkey _ (by decide)) (by decide) (by decide)
      (h _ (List.mem_singleton.mpr rfl)) (inert_commonType _)
  · exact citesOnly_entry (hkey _ (by decide)) (by decide) (by decide)
      (citesOnly_arr.mpr h) (inert_commonType _)

def InertBounds (bounds : List Bound) : Prop := ∀ b ∈ bounds, Inert b.limit

def InertConfig (config : Config) : Prop := ∀ p ∈ config, Inert p.2

theorem silent_keyword {g : Grip} {kind : BoundKind} {k : String} (h : g.keyword? kind = some k) :
    Silent k ∧ k ≠ "type" := by
  have hall : ((g.keyword? kind).all fun k => Silent k ∧ k ≠ "type") = true := by
    cases g <;> cases kind <;> decide
  rw [h] at hall
  exact of_decide_eq_true hall

theorem overlay_shown {bounds : List Bound} (h : InertBounds bounds) (g : Grip) :
    Overlay (g.shown bounds) := by
  intro p hp
  obtain ⟨b, hb, hp⟩ := List.mem_filterMap.mp hp
  obtain ⟨k, hk, rfl⟩ := Option.map_eq_some_iff.mp hp
  exact ⟨(silent_keyword hk).1.word, h b hb⟩

theorem keys_shown (g : Grip) (bounds : List Bound) :
    Entries.keys (g.shown bounds) = (bounds.map Bound.kind).filterMap g.keyword? := by
  rw [Entries.keys, Grip.shown, List.map_filterMap, List.filterMap_map]
  refine List.filterMap_congr fun b _ => ?_
  rw [Option.map_map, Function.comp_apply]
  cases g.keyword? b.kind <;> rfl

theorem nodup_keys_shown_text {bounds : List Bound} (h : (bounds.map Bound.kind).Nodup) :
    (Entries.keys (Grip.text.shown bounds)).Nodup := by
  rw [keys_shown]
  refine List.Nodup.filterMap (fun a a' k ha ha' => ?_) h
  rw [Option.mem_def] at ha ha'
  have hsame : Grip.text.keyword? a = Grip.text.keyword? a' := ha.trans ha'.symm
  have hsome : (Grip.text.keyword? a).isSome := by rw [ha]; rfl
  clear ha ha'
  revert hsame hsome
  cases a <;> cases a' <;> decide

theorem Entries.keys_filterMap_sublist {α β : Type} {f : String × α → Option (String × β)}
    (hf : ∀ p q, f p = some q → q.1 = p.1) (e : List (String × α)) :
    (Entries.keys (e.filterMap f)).Sublist (e.map Prod.fst) := by
  induction e with
  | nil => exact List.nil_sublist _
  | cons p rest ih =>
    rw [List.filterMap_cons, List.map_cons]
    cases hp : f p with
    | none => exact ih.cons _
    | some q =>
      rw [← hf p q hp]
      exact ih.cons_cons _

theorem inert_of_config {config : Config} (h : InertConfig config) {key : String} {j : Json}
    (hj : Entries.get? config key = some j) : Inert j := h (key, j) (Entries.mem_of_get? hj)

theorem overlay_text {bounds : List Bound} (hb : InertBounds bounds) :
    Overlay (typed "string" ++ Grip.text.shown bounds) := by
  intro p hp
  rcases List.mem_append.mp hp with hp | hp
  · rw [List.mem_singleton.mp hp]
    exact ⟨by decide, inert_str (by decide)⟩
  · exact overlay_shown hb _ p hp

theorem nodup_keys_text {bounds : List Bound} (hn : (bounds.map Bound.kind).Nodup) :
    (Entries.keys (typed "string" ++ Grip.text.shown bounds)).Nodup := by
  have hkeys : Entries.keys (typed "string" ++ Grip.text.shown bounds) =
      "type" :: Entries.keys (Grip.text.shown bounds) := rfl
  rw [hkeys]
  refine List.nodup_cons.mpr ⟨fun hm => ?_, nodup_keys_shown_text hn⟩
  rw [keys_shown] at hm
  obtain ⟨kind, -, hk⟩ := List.mem_filterMap.mp hm
  exact (silent_keyword hk).2 rfl

theorem inert_textEntries {config : Config} (hc : InertConfig config) {bounds : List Bound}
    (hb : InertBounds bounds) (hn : (bounds.map Bound.kind).Nodup) :
    Inert (.obj (textEntries config bounds)) := by
  rw [textEntries]
  have hown := overlay_text hb
  have hnodup := nodup_keys_text hn
  generalize typed "string" ++ Grip.text.shown bounds = own at hown hnodup
  generalize hE : List.filterMap _ _ = extra
  -- the limits that the settings give stand under keys that the bounds have not taken
  have hmem : ∀ q ∈ extra, q.1 ≠ "$ref" ∧ Inert q.2 ∧ Entries.has own q.1 = false := by
    intro q hq
    rw [← hE] at hq
    obtain ⟨⟨key, limit⟩, hp, hq⟩ := List.mem_filterMap.mp hq
    dsimp only at hq
    split at hq
    · cases hq
    · rename_i hnot
      obtain ⟨l, hl, rfl⟩ := Option.map_eq_some_iff.mp hq
      rcases List.mem_pair.mp hp with heq | heq <;> cases heq <;>
        exact ⟨by simp, inert_of_config hc (Option.filter_eq_some_iff.mp hl).1,
          Bool.eq_false_iff.mpr hnot⟩
  have hkeys : (Entries.keys extra).Nodup := by
    rw [← hE]
    refine List.Nodup.sublist (Entries.keys_filterMap_sublist ?_ _)
      (by decide : ["minLength", "maxLength"].Nodup)
    rintro ⟨key, limit⟩ q hq
    dsimp only at hq
    split at hq
    · cases hq
    · obtain ⟨l, -, rfl⟩ := Option.map_eq_some_iff.mp hq
      rfl
  refine citesOnly_of_overlay (fun p hp => (List.mem_append.mp hp).elim (hown p) fun hp =>
    ⟨(hmem p hp).1, (hmem p hp).2.1⟩) ?_
  rw [Entries.keys, List.map_append]
  refine List.nodup_append.mpr ⟨hnodup, hkeys, ?_⟩
  rintro _ hk k hk' rfl
  obtain ⟨q, hq, rfl⟩ := List.mem_map.mp hk'
  have hnone := (hmem q hq).2.2
  rw [Entries.has, Option.isSome_eq_false_iff, Option.isNone_iff_eq_none] at hnone
  exact Entries.get?_eq_none_iff.mp hnone hk

theorem inert_momentEntries (config : Config) {format : String} (h : Silent format) :
    Inert (.obj (momentEntries config format)) := by
  rw [momentEntries]
  split
  · exact inert_formatted (by decide) h
  · exact inert_typed (by decide)

theorem inert_entries? {config : Config} (hc : InertConfig config) {p : Plain} {e : Entries Json}
    (h : p.entries? config = some e) : Inert (.obj e) := by
  have hlist : ∀ unique, Inert (.obj (listOf (.obj []) unique)) :=
    citesOnly_listOf citesOnly_nil
  have hdict : Inert (.obj [("type", .str "object"), ("additionalProperties", .bool true)]) := by
    refine citesOnly_entry (by simp [Entries.keys]) (by decide) (by decide)
      (inert_str (by decide)) ?_
    exact citesOnly_entry List.not_mem_nil (by decide) (by decide) (citesOnly_bool true)
      citesOnly_nil
  cases p with
  | callable => cases h
  | sealed => cases h
  | str =>
    cases h
    exact inert_textEntries hc (fun _ h => by cases h) .nil
  | bytes =>
    cases h
    split <;> exact inert_formatted (by decide) (by decide)
  | date | datetime | time =>
    cases h
    exact inert_momentEntries config (by decide)
  | list | tuple | set | frozenset =>
    cases h
    exact hlist _
  | dict =>
    cases h
    exact hdict
  | any | object =>
    cases h
    exact citesOnly_nil
  | int | float | bool | none =>
    cases h
    exact inert_typed (by decide)
  | uuid =>
    cases h
    exact inert_formatted (by decide) (by decide)

/-! ## Parts of schemas under other names -/

section Relabel
variable {n : Renaming}

theorem data_str {s : String} (h : Silent s) : n.data (.str s) = .str s :=
  n.data_of_inert (inert_str h)

theorem data_arr (items : List Json) : n.data (.arr items) = .arr (items.map n.data) := by
  rw [Renaming.data, Renaming.dataOfList_eq]

theorem data_obj (e : Entries Json) : n.data (.obj e) = .obj (Entries.mapValues n.data e) := by
  rw [Renaming.data, Renaming.dataOfEntries_eq]

theorem mapValues_cons (k : String) (v : Json) (e : Entries Json) :
    Entries.mapValues n.data ((k, v) :: e) = (k, n.data v) :: Entries.mapValues n.data e := rfl

theorem mapValues_listOf (item : Json) (unique : Bool) :
    Entries.mapValues n.data (listOf item unique) = listOf (n.data item) unique := by
  have hbase : Entries.mapValues n.data [("type", .str "array"), ("items", item)] =
      [("type", .str "array"), ("items", n.data item)] := by
    rw [mapValues_cons, mapValues_cons, data_str (by decide)]
    rfl
  rw [listOf, listOf]
  cases unique with
  | false => exact hbase
  | true =>
    rw [if_pos rfl, if_pos rfl, Entries.mapValues_put, hbase]
    rfl

theorem map_obj_mapValues (items : List (Entries Json)) :
    (items.map (Entries.mapValues n.data)).map Json.obj = (items.map Json.obj).map n.data := by
  rw [List.map_map, List.map_map]
  exact List.map_congr_left fun e _ => (data_obj e).symm

theorem mapValues_tupleOf (items : List (Entries Json)) :
    Entries.mapValues n.data (tupleOf items) = tupleOf (items.map (Entries.mapValues n.data)) := by
  have hlengths : Entries.mapValues n.data
      [("minItems", .int items.length), ("maxItems", .int items.length)] =
      [("minItems", .int items.length), ("maxItems", .int items.length)] := rfl
  rw [tupleOf, tupleOf, List.isEmpty_map, List.length_map]
  split
  · rw [mapValues_cons, data_str (by decide), hlengths]
  · rw [mapValues_cons, mapValues_cons, data_str (by decide), hlengths, data_arr,
      map_obj_mapValues]

theorem data_eq_str {j : Json} (h : CitesOnly known j) {s : String} :
    n.data j = .str s ↔ j = .str s := by
  cases j with
  | str t => rw [data_str (citesOnly_str.mp h)]
  | arr items => simp [data_arr]
  | obj e => simp [data_obj]
  | _ => simp [Renaming.data]

theorem mapValues_withoutAll (e : Entries Json) (names : List String) :
    Entries.mapValues n.data (Entries.withoutAll e names) =
      Entries.withoutAll (Entries.mapValues n.data e) names :=
  Entries.mapValues_filter n.data (fun k => !names.contains k) e

theorem mapValues_contentsOf {pattern : Option Json} (values : Entries Json)
    (hp : ∀ v, pattern = some v → CitesOnly known v) :
    contentsOf (pattern.map n.data) (Entries.mapValues n.data values) =
      ((contentsOf pattern values).1, n.data (contentsOf pattern values).2) := by
  have hplain : (if (Entries.mapValues n.data values).isEmpty
        then ("additionalProperties", Json.bool true)
        else ("additionalProperties", .obj (Entries.mapValues n.data values))) =
      ((if values.isEmpty then ("additionalProperties", Json.bool true)
        else ("additionalProperties", .obj values)).1,
        n.data (if values.isEmpty then ("additionalProperties", Json.bool true)
        else ("additionalProperties", .obj values)).2) := by
    cases values with
    | nil => rfl
    | cons p rest => exact congrArg (Prod.mk "additionalProperties") (data_obj (p :: rest)).symm
  cases pattern with
  | none => exact hplain
  | some v =>
    have hv := hp v rfl
    cases v with
    | str p =>
      rw [Option.map_some, data_str (citesOnly_str.mp hv), contentsOf, contentsOf, data_obj,
        mapValues_cons, data_obj]
      rfl
    | arr items => exact hplain
    | obj e => exact hplain
    | null | bool _ | int _ | decimal _ | unbounded _ => exact hplain

theorem beq_str_data {o : Option Json} {s : String} (h : ∀ v, o = some v → CitesOnly known v) :
    (o.map n.data == some (.str s)) = (o == some (.str s)) := by
  cases o with
  | none => rfl
  | some v =>
    rw [Option.map_some, Bool.eq_iff_iff, beq_iff_eq, beq_iff_eq, Option.some_inj, Option.some_inj]
    exact data_eq_str (h v rfl)

theorem mapValues_mappingOf {key : Entries Json} (hkey : CitesOnly known (.obj key))
    (value : Entries Json) : Entries.mapValues n.data (mappingOf key value) =
      mappingOf (Entries.mapValues n.data key) (Entries.mapValues n.data value) := by
  rw [mappingOf_eq, mappingOf_eq]
  dsimp only
  rw [Entries.has_mapValues, ← Entries.mapValues_without]
  have hpattern : (if Entries.has key "$ref" then none
        else Entries.get? (Entries.mapValues n.data key) "pattern") =
      (if Entries.has key "$ref" then none else Entries.get? key "pattern").map n.data := by
    split
    · rfl
    · exact Entries.get?_mapValues ..
  have hnames : (if Entries.has key "$ref" then Entries.mapValues n.data key
        else Entries.withoutAll (Entries.mapValues n.data key) ["pattern", "title"]) =
      Entries.mapValues n.data (if Entries.has key "$ref" then key
        else Entries.withoutAll key ["pattern", "title"]) := by
    split
    · rfl
    · exact (mapValues_withoutAll ..).symm
  have hcite : CitesOnly known (.obj (if Entries.has key "$ref" then key
      else Entries.withoutAll key ["pattern", "title"])) := by
    split
    · exact hkey
    · exact citesOnly_filter hkey _
  have hcited : ∀ v, (if Entries.has key "$ref" then none else Entries.get? key "pattern") =
      some v → CitesOnly known v := by
    intro v hv
    split at hv
    · cases hv
    · exact citesOnly_of_get? hkey (by decide) hv
  rw [hpattern, hnames, mapValues_contentsOf _ hcited]
  revert hcite
  generalize (if Entries.has key "$ref" then key
    else Entries.withoutAll key ["pattern", "title"]) = names
  generalize contentsOf _ _ = contents
  intro hcite
  have htype : ∀ v, Entries.get? names "type" = some v → CitesOnly known v :=
    fun v hv => citesOnly_of_get? hcite (by decide) hv
  rw [Entries.get?_mapValues, beq_str_data htype]
  have hlength : (Entries.mapValues n.data names).length = names.length := List.length_map ..
  rw [hlength, ← Entries.mapValues_without]
  have hobject := data_str (n := n) (s := "object") (by decide)
  split
  · rw [mapValues_cons, hobject, mapValues_cons, mapValues_cons, data_obj]
    rfl
  · rw [mapValues_cons, hobject, mapValues_cons]
    rfl

theorem alternativesOf_data (e : Entries Json) :
    alternativesOf (.obj (Entries.mapValues n.data e)) =
      (alternativesOf (.obj e)).map n.data := by
  have hself : ∀ e : Entries Json, (∀ items, e ≠ [("anyOf", .arr items)]) →
      alternativesOf (.obj e) = [.obj e] := by
    intro e he
    rw [alternativesOf.eq_def]
    split
    · rename_i items heq
      exact absurd (Json.obj.inj heq) (he items)
    · rfl
  by_cases h : ∃ items, e = [("anyOf", .arr items)]
  · obtain ⟨items, rfl⟩ := h
    rw [mapValues_cons, data_arr]
    rfl
  · rw [not_exists] at h
    have h' : ∀ items, Entries.mapValues n.data e ≠ [("anyOf", .arr items)] := by
      intro items heq
      cases e with
      | nil => cases heq
      | cons p rest =>
        obtain ⟨k, v⟩ := p
        rw [mapValues_cons, List.cons.injEq, Prod.mk.injEq] at heq
        obtain ⟨⟨rfl, hv⟩, hrest⟩ := heq
        rw [Entries.mapValues, List.map_eq_nil_iff] at hrest
        subst hrest
        cases v with
        | arr xs => exact h xs rfl
        | obj e' => simp [data_obj] at hv
        | _ => simp [Renaming.data] at hv
    rw [hself _ h', hself _ h, List.map_singleton, data_obj]

variable (hinj : ∀ x y, known x → known y → n.apply x = n.apply y → x = y)
include hinj

theorem mapValues_anyOf {schemas : List (Entries Json)}
    (h : ∀ e ∈ schemas, CitesOnly known (.obj e)) :
    Entries.mapValues n.data (anyOf schemas) =
      anyOf (schemas.map (Entries.mapValues n.data)) := by
  have hall : ∀ x ∈ (schemas.map Json.obj).flatMap alternativesOf, CitesOnly known x := by
    intro x hx
    obtain ⟨j, hj, hx⟩ := List.mem_flatMap.mp hx
    obtain ⟨e, he, rfl⟩ := List.mem_map.mp hj
    exact citesOnly_alternativesOf (h e he) x hx
  have hflat : ((schemas.map (Entries.mapValues n.data)).map Json.obj).flatMap alternativesOf =
      ((schemas.map Json.obj).flatMap alternativesOf).map n.data := by
    rw [List.map_map, List.flatMap_map, List.flatMap_map, List.map_flatMap]
    exact List.flatMap_congr fun e _ => alternativesOf_data e
  rw [anyOf.eq_def, anyOf.eq_def, hflat, Renaming.distinct_data hinj hall]
  generalize Json.distinct _ = js
  match js with
  | [] => rfl
  | [j] =>
    cases j with
    | obj e => exact congrArg Json.entries (data_obj e).symm
    | _ => rfl
  | j :: k :: rest =>
    refine (mapValues_cons ..).trans ?_
    rw [data_arr]
    rfl

theorem mapValues_unionEntries {schemas : List (Entries Json)}
    (h : ∀ e ∈ schemas, CitesOnly known (.obj e)) :
    Entries.mapValues n.data (unionEntries schemas) =
      unionEntries (schemas.map (Entries.mapValues n.data)) := by
  match schemas with
  | [] => exact mapValues_anyOf hinj h
  | [e] => rfl
  | e :: e' :: rest => exact mapValues_anyOf hinj h

theorem mapValues_orNull {schema : Entries Json} (h : CitesOnly known (.obj schema)) :
    Entries.mapValues n.data (orNull schema) = orNull (Entries.mapValues n.data schema) := by
  have hnull : Entries.mapValues n.data nullSchema.entries = nullSchema.entries := by
    rw [nullSchema, Json.entries_obj, mapValues_cons, data_str (by decide)]
    rfl
  have heq := Renaming.equal_data hinj (.inl h) (.inl (.of_inert inert_null))
  rw [data_obj, n.data_of_inert inert_null] at heq
  rw [orNull, orNull, heq]
  split
  · rfl
  · rw [mapValues_anyOf hinj, List.map_cons, List.map_singleton, hnull]
    intro e he
    rcases List.mem_cons.mp he with rfl | he
    · exact h
    · rw [List.mem_singleton.mp he]
      exact .of_inert inert_null

end Relabel

end Procedoc
