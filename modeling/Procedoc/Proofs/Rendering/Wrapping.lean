import Procedoc.Proofs.Rendering.Instances

/-! # Wrappers around a schema

A schema may stand in any number of wrappers, in any order (`Schema.wrappedIn`).  All that documents
show of them is the outermost default that is given, which is written over the schema in them
(`Schema.shown_wrappedIn`).  Inlining goes through it like through any other entry (`inlined_put`),
so that it may as well be written over the rendering: `wrappers_add_a_default`. -/

namespace Procedoc
set_option autoImplicit false

/-! ## Writing one entry -/

namespace Entries
variable {α : Type}

theorem put_put (e : Entries α) (key : String) (v w : α) :
    put (put e key v) key w = put e key w := by
  induction e with
  | nil => simp [put]
  | cons p rest ih =>
    by_cases h : p.1 = key
    · simp [put, h]
    · simp [put, h, ih]

theorem put_comm {e : Entries α} {key : String} (hkey : key ∈ keys e) {other : String}
    (hne : other ≠ key) (v w : α) : put (put e other w) key v = put (put e key v) other w := by
  induction e with
  | nil => cases hkey
  | cons p rest ih =>
    by_cases hp : p.1 = key
    · have hother : p.1 ≠ other := fun h => hne (h.symm.trans hp)
      simp [put, hp, hne.symm]
    · have hrest : key ∈ keys rest := (List.mem_cons.mp hkey).resolve_left fun h => hp h.symm
      by_cases hother : p.1 = other
      · simp [put, hother, hne]
      · simp [put, hp, hother, ih hrest]

theorem without_put_of_ne (e : Entries α) {key other : String} (hne : key ≠ other) (v : α) :
    without (put e key v) other = put (without e other) key v := by
  induction e with
  | nil => simp [put, without, hne]
  | cons p rest ih =>
    by_cases hp : p.1 = key
    · simp [put, without, hp, hne]
    · by_cases hother : p.1 = other
      · simpa [put, without, hother, hne.symm] using ih
      · simpa [put, without, hp, hother] using ih

theorem override_put_of_notMem {base top : Entries α} {key : String} (hbase : key ∈ keys base)
    (htop : key ∉ keys top) (v : α) :
    override (put base key v) top = put (override base top) key v := by
  induction top generalizing base with
  | nil => rfl
  | cons p rest ih =>
    have hne : p.1 ≠ key := fun h => htop (h ▸ List.mem_cons_self)
    have hrest : key ∉ keys rest := fun h => htop (List.mem_cons_of_mem _ h)
    have hput : key ∈ keys (put base p.1 p.2) := by
      rw [keys_put]
      split
      · exact hbase
      · exact List.mem_append_left _ hbase
    rw [override, override, ← put_comm hbase hne, ih hput hrest]

/-- An entry that is written before its list is written over others may be written afterwards. -/
theorem override_put (base : Entries α) {top : Entries α} (hn : (keys top).Nodup) (key : String)
    (v : α) : override base (put top key v) = put (override base top) key v := by
  induction top generalizing base with
  | nil => rfl
  | cons p rest ih =>
    obtain ⟨hnew, hrest⟩ := List.nodup_cons.mp hn
    by_cases hp : p.1 = key
    · subst hp
      have hput : p.1 ∈ keys (put base p.1 p.2) := by
        rw [keys_put]
        split
        · assumption
        · exact List.mem_append_right _ List.mem_cons_self
      rw [put, if_pos rfl, override, override, ← override_put_of_notMem hput hnew, put_put]
    · rw [put, if_neg hp, override, override, ih _ hrest]

end Entries

/-! ## Inlining with one more entry -/

section Inlining
variable {e : Entries Json} {key : String} {d j : Json}

theorem value_expand_put {definitions : Entries Json} {stack : List String}
    (hn : (Entries.keys e).Nodup) (href : key ≠ "$ref") (hd : SelfContained d) :
    (expand definitions stack (.obj (Entries.put e key d))).value =
      (expand definitions stack (.obj e)).value.override (.obj [(key, d)]) := by
  have hreference : referenceOf? (Entries.put e key d) = referenceOf? e := by
    rw [referenceOf?, referenceOf?, Entries.get?_put, if_neg href]
  have hinside : (expandEntries definitions stack (Entries.put e key d)).value =
      Entries.put (expandEntries definitions stack e).value key d := by
    rw [value_expandEntries, value_expandEntries, Entries.mapValues_put,
      value_expand_eq_iff.mpr hd]
  have hsiblings : Entries.without (expandEntries definitions stack (Entries.put e key d)).value
      "$ref" = Entries.put (Entries.without (expandEntries definitions stack e).value "$ref") key d := by
    rw [hinside, Entries.without_put_of_ne _ href]
  cases hr : referenceOf? e with
  | none =>
    rw [expand_plain hr, expand_plain (hreference.trans hr), hinside]
    rfl
  | some reference =>
    obtain ⟨ref, name⟩ := reference
    have hr' := hreference.trans hr
    by_cases hcut : name ∈ stack ∨ Entries.get? definitions name = none
    · rw [expand_cut hr hcut, expand_cut hr' hcut, hsiblings]
      rfl
    · obtain ⟨hs, hnone⟩ := not_or.mp hcut
      obtain ⟨target, htarget⟩ := Option.ne_none_iff_exists'.mp hnone
      rw [expand_followed hr hs htarget, expand_followed hr' hs htarget, hsiblings]
      exact congrArg Json.obj (Entries.override_put _ (nodup_keys_siblings hn) key d)

theorem inlined_put (hn : (Entries.keys e).Nodup) (href : key ≠ "$ref") (hdefs : key ≠ "$defs")
    (hd : SelfContained d) (h : (inlined e).outcome = .ok j) :
    (inlined (Entries.put e key d)).outcome = .ok (j.override (.obj [(key, d)])) := by
  have hwords : ∀ k ∈ ["$ref", "$defs"], k ∉ Entries.keys [(key, d)] := by
    simp [Entries.keys, href.symm, hdefs.symm]
  obtain ⟨j', hput⟩ : ∃ j', (inlined (Entries.put e key d)).outcome = .ok j' :=
    inlined_override (hwords _ (by decide)) (hwords _ (by decide))
      (List.forall_mem_singleton.mpr hd) ⟨j, h⟩
  obtain ⟨definitions, hread, -, rfl⟩ := inlined_eq_ok.mp h
  obtain ⟨definitions', hread', -, rfl⟩ := inlined_eq_ok.mp hput
  rw [Entries.get?_put, if_neg hdefs, hread, Except.ok.injEq] at hread'
  rw [hput, ← hread', Entries.without_put_of_ne _ hdefs,
    value_expand_put (Entries.nodup_keys_without hn _) href hd]

end Inlining

/-! ## JSON values -/

mutual
def Value.ofJson : Json → Value
  | .arr items => .many .list (ofJsonList items)
  | .obj e => .dict (ofJsonEntries e)
  | j => .plain j

def Value.ofJsonList : List Json → List Value
  | [] => []
  | j :: rest => ofJson j :: ofJsonList rest

def Value.ofJsonEntries : List (String × Json) → List (String × Value)
  | [] => []
  | (key, j) :: rest => (key, ofJson j) :: ofJsonEntries rest
end

section OfJson
variable (c : Catalog) (recordData : String → Entries Json → Except Fault Json) (form : DataForm)

mutual
theorem Catalog.dataWith_ofJson : (j : Json) →
    c.dataWith recordData form (Value.ofJson j) = .ok j
  | .arr items => by
    rw [Value.ofJson, dataWith, dataOfList_ofJsonList items]
    rfl
  | .obj e => by
    rw [Value.ofJson, dataWith, dataOfEntries_ofJsonEntries e]
    rfl
  | .null | .bool _ | .int _ | .decimal _ | .unbounded _ | .str _ => by
    simp only [Value.ofJson, dataWith]

theorem Catalog.dataOfList_ofJsonList : (items : List Json) →
    c.dataOfList recordData form (Value.ofJsonList items) = .ok items
  | [] => by rw [Value.ofJsonList, dataOfList]
  | j :: rest => by
    rw [Value.ofJsonList, dataOfList, dataWith_ofJson j, dataOfList_ofJsonList rest]
    rfl

theorem Catalog.dataOfEntries_ofJsonEntries : (e : List (String × Json)) →
    c.dataOfEntries recordData form (Value.ofJsonEntries e) = .ok e
  | [] => by rw [Value.ofJsonEntries, dataOfEntries]
  | (key, j) :: rest => by
    rw [Value.ofJsonEntries, dataOfEntries, dataWith_ofJson j, dataOfEntries_ofJsonEntries rest]
    rfl
end

theorem Catalog.data_ofJson (j : Json) : c.data (Value.ofJson j) = .ok j :=
  dataWith_ofJson c _ _ j

end OfJson

/-! ## Wrappers in a row -/

/-- The default that a wrapper holds, if it is one that is given here. -/
def Wrapper.value? : Wrapper → Option Value
  | default value => value
  | optional | effect _ => none

namespace Schema
variable {b : Schema} {ws : List Wrapper} {c : Catalog} {side : Side} {e : Entries Json}

def wrappedIn (b : Schema) (ws : List Wrapper) : Schema := ws.foldr wrap b

/-- The schema, as if it was not read from a field. -/
def bare : Schema → Schema
  | text leaf _ => text leaf none
  | other leaf _ => other leaf none
  | wrapped w inner _ => wrapped w inner none
  | object head fields _ => object head fields none

theorem base_wrappedIn (hb : b.isWrapper = false) : (b.wrappedIn ws).base = b := by
  induction ws with
  | nil =>
    cases b with
    | wrapped w inner o => cases hb
    | _ => rfl
  | cons w rest ih => exact (base_wrap w _).trans ih

theorem isOptional_wrap (w : Wrapper) (s : Schema) : (wrap w s).isOptional = true ↔
    (w.kind = .optional ∨ w.kind = .default) ∨ s.isOptional = true := by
  cases w <;> simp [wrap, isOptional, Wrapper.kind]

theorem isOptional_wrappedIn : (b.wrappedIn ws).isOptional = true ↔
    (∃ w ∈ ws, w.kind = .optional ∨ w.kind = .default) ∨ b.isOptional = true := by
  induction ws with
  | nil => simp [wrappedIn]
  | cons w rest ih =>
    rw [List.exists_mem_cons_iff, or_assoc, ← ih]
    exact isOptional_wrap w _

theorem isOptional_iff_of_not_isWrapper (hb : b.isWrapper = false) : b.isOptional = true ↔
    ∃ head fields o, b = object head fields o ∧ head.mayBeAbsent = true := by
  cases b with
  | wrapped w inner o => cases hb
  | object head fields o => simp [isOptional]
  | _ => simp [isOptional]

theorem origin_wrappedIn (h : ws ≠ [] ∨ b.origin = none) : (b.wrappedIn ws).origin = none := by
  cases ws with
  | nil => exact h.resolve_left (· rfl)
  | cons w rest => rfl

theorem shown_bare (hb : b.isWrapper = false) : b.bare.shown c side = b.shown c side := by
  cases b with
  | wrapped w inner o => cases hb
  | _ => rfl

theorem shown_wrap_of_value?_eq_none {w : Wrapper} (h : w.value? = none) {s : Schema}
    (hs : s.shown c side = .ok e) : (wrap w s).shown c side = .ok e := by
  cases w with
  | default value =>
    cases h
    rw [wrap, shown, hs]
    rfl
  | _ =>
    rw [wrap, shown, hs]
    rfl

theorem render_of_shown {s : Schema} {j : Json} (ho : s.origin = none)
    (hs : s.shown c side = .ok e) (hj : (inlined e).outcome = .ok j) :
    (s.render c side).outcome = .ok j := by
  refine render_eq_ok.mpr ⟨e, ?_, hj⟩
  rw [remarked, hs, ho]
  rfl

theorem exists_shown_of_render_bare {j : Json} (h : (b.bare.render c side).outcome = .ok j) :
    ∃ e, b.bare.shown c side = .ok e ∧ (inlined e).outcome = .ok j := by
  have ho : b.bare.origin = none := by cases b <;> rfl
  obtain ⟨e', he', hj⟩ := render_eq_ok.mp h
  obtain ⟨e, he, rfl⟩ := remarked_eq_ok.mp he'
  rw [ho] at hj
  exact ⟨e, he, hj⟩

/-- What wrappers show is what is in them, with the outermost default that is given. -/
theorem shown_wrappedIn (hb : b.shown c side = .ok e)
    (hdata : ∀ w ∈ ws, ∀ v, w.value? = some v → ∃ d, c.data v = .ok d) :
    (ws.findSome? Wrapper.value? = none → (b.wrappedIn ws).shown c side = .ok e) ∧
      ∀ v d, ws.findSome? Wrapper.value? = some v → c.data v = .ok d →
        (b.wrappedIn ws).shown c side = .ok (Entries.put e "default" d) := by
  induction ws with
  | nil => exact ⟨fun _ => hb, nofun⟩
  | cons w rest ih =>
    obtain ⟨hnone, hsome⟩ := ih fun w hw => hdata w (List.mem_cons_of_mem _ hw)
    cases hw : w.value? with
    | none =>
      rw [List.findSome?_cons_of_isNone (by rw [hw]; rfl)]
      exact ⟨fun h => shown_wrap_of_value?_eq_none hw (hnone h),
        fun v d hv hd => shown_wrap_of_value?_eq_none hw (hsome v d hv hd)⟩
    | some v =>
      obtain rfl : w = .default (some v) := by
        cases w with
        | default value => exact congrArg Wrapper.default hw
        | _ => cases hw
      refine ⟨nofun, fun v' d hv' hd => ?_⟩
      cases hv'
      -- an inner default, if there is one, is written over
      cases hinner : rest.findSome? Wrapper.value? with
      | none => exact shown_withDefault (hnone hinner) hd
      | some u =>
        obtain ⟨w', hw', hu⟩ := List.exists_of_findSome?_eq_some hinner
        obtain ⟨d', hd'⟩ := hdata w' (List.mem_cons_of_mem _ hw') u hu
        exact (shown_withDefault (hsome u d' hinner hd') hd).trans
          (congrArg Except.ok (Entries.put_put e "default" d' d))

end Schema

/-- However wrappers stand around a schema that is none, what is in them is that schema; a value may
be left out exactly if one of them is optional or has a default, or the whole object may be absent.
Documents show the schema as it is shown apart from the field that it was read from, with the
outermost default that is given.  Defaults may be all values that have data, such as JSON values
(`Catalog.data_ofJson`); what is shown of them must not refer to definitions. -/
theorem wrappers_add_a_default {b : Schema} (hb : b.isWrapper = false) (ws : List Wrapper) :
    (b.wrappedIn ws).base = b ∧
      ((b.wrappedIn ws).isOptional = true ↔
        (∃ w ∈ ws, w.kind = .optional ∨ w.kind = .default) ∨
          ∃ head fields o, b = .object head fields o ∧ head.mayBeAbsent = true) ∧
      ∀ (c : Catalog) (side : Side) (j : Json),
        (b.bare.render c side).outcome = .ok j →
        -- as in all objects, no key is there twice
        (∀ e, b.bare.shown c side = .ok e → (Entries.keys e).Nodup) →
        (ws ≠ [] ∨ b.origin = none) →
        (∀ w ∈ ws, ∀ v, w.value? = some v → ∃ d, c.data v = .ok d) →
        (ws.findSome? Wrapper.value? = none → ((b.wrappedIn ws).render c side).outcome = .ok j) ∧
          ∀ v d, ws.findSome? Wrapper.value? = some v → c.data v = .ok d → SelfContained d →
            ((b.wrappedIn ws).render c side).outcome = .ok (j.override (.obj [("default", d)])) := by
  refine ⟨Schema.base_wrappedIn hb, ?_, fun c side j hj hn ho hdata => ?_⟩
  · rw [Schema.isOptional_wrappedIn, Schema.isOptional_iff_of_not_isWrapper hb]
  obtain ⟨e, he, hinlined⟩ := Schema.exists_shown_of_render_bare hj
  have hshown : b.shown c side = .ok e := (Schema.shown_bare hb).symm.trans he
  obtain ⟨hnone, hsome⟩ := Schema.shown_wrappedIn hshown hdata
  have horigin := Schema.origin_wrappedIn ho
  refine ⟨fun h => ?_, fun v d hv hd hself => ?_⟩
  · exact Schema.render_of_shown horigin (hnone h) hinlined
  · exact Schema.render_of_shown horigin (hsome v d hv hd)
      (inlined_put (hn e he) (by decide) (by decide) hself hinlined)

/-- Wrappers in which the outermost default is not the outermost wrapper. -/
def someWrappers : List Wrapper :=
  [.optional, .default none, .effect [.check .after],
    .default (some (Value.ofJson (.arr [.str "a", .null]))), .optional,
    .default (some (Value.ofJson (.str "b")))]

/-- A text shows the outer one of two defaults. -/
theorem wrappers_add_a_default_someText :
    someText.isWrapper = false ∧ (someText.wrappedIn someWrappers).base = someText ∧
      (someText.wrappedIn someWrappers).isOptional = true ∧
      ((someText.wrappedIn someWrappers).render {} .input).outcome =
        .ok (.obj [("type", .str "string"), ("default", .arr [.str "a", .null])]) := by
  obtain ⟨hbase, hoptional, hrender⟩ := wrappers_add_a_default (b := someText) rfl someWrappers
  have hj : (someText.render {} .input).outcome = .ok (.obj shownText) :=
    Schema.render_of_shown rfl renders_someText.shown (by cbv)
  have hn : ∀ e, someText.shown {} .input = .ok e → (Entries.keys e).Nodup := by
    intro e he
    obtain rfl := Except.ok.inj (renders_someText.shown.symm.trans he)
    exact renders_someText.nodup
  have hdata : ∀ w ∈ someWrappers, ∀ v, w.value? = some v → ∃ d, Catalog.data {} v = .ok d := by
    simp only [someWrappers, List.forall_mem_cons, Wrapper.value?]
    simp [Catalog.data_ofJson]
  have hself : SelfContained (.arr [.str "a", .null]) := by
    rw [selfContained_arr, List.forall_mem_cons, List.forall_mem_singleton]
    exact ⟨selfContained_str _, selfContained_null⟩
  have hshown := (hrender {} .input _ hj hn (.inr rfl) hdata).2 _ _ rfl
    (Catalog.data_ofJson {} _) hself
  exact ⟨rfl, hbase, hoptional.mpr (.inl ⟨.optional, List.mem_cons_self, .inl rfl⟩), hshown⟩

def titledField : Field TypeExpr where
  name := "a"
  type := .str
  facts := { title := some "T" }

/-- What is said of the field that a schema was read from is not shown through a wrapper. -/
theorem wrapping_hides_title :
    (someText.readFrom titledField).isWrapper = false ∧
      ((someText.readFrom titledField).render {} .input).outcome =
        .ok (.obj [("type", .str "string"), ("title", .str "T")]) ∧
      (((someText.readFrom titledField).wrappedIn [.optional]).render {} .input).outcome =
        .ok (.obj [("type", .str "string")]) := by
  have hremarks : titledField.facts.remarks = [("title", .str "T")] := by decide +kernel
  refine ⟨rfl, ?_, Schema.render_of_shown rfl renders_someText.shown (by cbv)⟩
  rw [Schema.render_of_origin (renders_readFrom titledField) (Schema.origin_readFrom ..), hremarks]
  cbv

end Procedoc
