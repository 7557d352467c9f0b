import Procedoc.Proofs.Inlining.Overriding
import Procedoc.Proofs.Rendering.Outcome

/-! # Data in schemas

A schema holds data of its users: a default, examples.  Rendering writes them into the schema as
they are, but inlining goes through all of the schema, data like keywords, so that data which reads
as a reference to a definition is taken for one.  `rendering_keeps_data` says that no other data is
touched. -/

namespace Procedoc
set_option autoImplicit false

/-- Whether a schema shows entries of its own that can be inlined, whatever else is said of a field
that it was read from. -/
structure Schema.Renders (c : Catalog) (side : Side) (s : Schema) (e : Entries Json) : Prop where
  shown : s.shown c side = .ok e
  /-- As in all objects, no key is there twice. -/
  nodup : (Entries.keys e).Nodup
  inlines : ∃ j, (inlined e).outcome = .ok j

/-! ## Examples -/

namespace Facts
variable {f : Facts} {x : Json} {xs : List Json}

/-- Where nothing is written by hand, what is said of a field are texts, its examples and a word on
whether it is out of use. -/
theorem exists_remarks (hexamples : f.examples = some (x :: xs)) (hextra : f.extra = none) :
    ∃ before after, f.remarks = before ++ [("examples", .arr (x :: xs))] ++ after ∧
      (Entries.keys before).Sublist ["title", "description"] ∧
      (Entries.keys after).Sublist ["deprecated"] ∧
      ∀ p ∈ before ++ after, SelfContained p.2 := by
  unfold remarks
  extract_lets unlessEmpty own
  have htext : ∀ key text, (Entries.keys (unlessEmpty key text)).Sublist [key] ∧
      ∀ p ∈ unlessEmpty key text, SelfContained p.2 := by
    intro key text
    unfold unlessEmpty
    split
    · split
      · exact ⟨List.nil_sublist _, fun _ hp => by cases hp⟩
      · exact ⟨.refl _, List.forall_mem_singleton.mpr (selfContained_str _)⟩
    · exact ⟨List.nil_sublist _, fun _ hp => by cases hp⟩
  obtain ⟨htitle, hself⟩ := htext "title" f.title
  obtain ⟨hdescription, hself'⟩ := htext "description" f.description
  have htrue : (Entries.keys [("deprecated", Json.bool true)]).Sublist ["deprecated"] ∧
      ∀ p ∈ [("deprecated", Json.bool true)], SelfContained p.2 :=
    ⟨.refl _, List.forall_mem_singleton.mpr (selfContained_bool true)⟩
  simp only [hextra, own, hexamples]
  refine ⟨unlessEmpty "title" f.title ++ unlessEmpty "description" f.description, _, rfl, ?_, ?_⟩
  · rw [Entries.keys, List.map_append]
    exact htitle.append hdescription
  · rw [List.forall_mem_append, List.forall_mem_append]
    split
    · exact ⟨htrue.1, ⟨hself, hself'⟩, htrue.2⟩
    · split
      · exact ⟨List.nil_sublist _, ⟨hself, hself'⟩, fun _ hp => by cases hp⟩
      · exact ⟨htrue.1, ⟨hself, hself'⟩, htrue.2⟩
    · exact ⟨List.nil_sublist _, ⟨hself, hself'⟩, fun _ hp => by cases hp⟩

/-- What is written over a schema where examples are given, and nothing by hand. -/
structure Exemplifies (f : Facts) (x : Json) (xs : List Json) : Prop where
  nodup : (Entries.keys f.remarks).Nodup
  examples : ("examples", .arr (x :: xs)) ∈ f.remarks
  others : ∀ p ∈ f.remarks, p ≠ ("examples", .arr (x :: xs)) → SelfContained p.2
  words : ∀ k ∈ ["$ref", "$defs"], k ∉ Entries.keys f.remarks

theorem exemplifies (hexamples : f.examples = some (x :: xs)) (hextra : f.extra = none) :
    f.Exemplifies x xs := by
  obtain ⟨before, after, hremarks, hbefore, hafter, hself⟩ := exists_remarks hexamples hextra
  have hkeys : (Entries.keys f.remarks).Sublist
      ["title", "description", "examples", "deprecated"] := by
    rw [hremarks, Entries.keys, List.map_append, List.map_append]
    exact (hbefore.append (.refl ["examples"])).append hafter
  refine ⟨(by decide : List.Nodup _).sublist hkeys, ?_, fun p hp hne => ?_, fun k hk hmem => ?_⟩
  · rw [hremarks]
    exact List.mem_append_left _ (List.mem_append_right _ (List.mem_singleton_self _))
  · rw [hremarks, List.mem_append, List.mem_append, List.mem_singleton] at hp
    rcases hp with (hp | rfl) | hp
    · exact hself p (List.mem_append_left _ hp)
    · exact absurd rfl hne
    · exact hself p (List.mem_append_right _ hp)
  · have hnone : ∀ k ∈ ["$ref", "$defs"], k ∉ ["title", "description", "examples", "deprecated"] := by
      decide
    exact hnone k hk (hkeys.subset hmem)

end Facts

/-! ## What is rendered -/

namespace Schema
variable {c : Catalog} {side : Side} {e : Entries Json} {j : Json}

theorem shown_withDefault {inner : Schema} (h : inner.shown c side = .ok e) {value : Value}
    {d : Json} (hd : c.data value = .ok d) :
    (inner.withDefault (some value)).shown c side = .ok (Entries.put e "default" d) := by
  simp only [withDefault, wrap, shown, h, hd]
  rfl

theorem render_withDefault {inner : Schema} (h : inner.Renders c side e) {value : Value} {d : Json}
    (hd : c.data value = .ok d) : ((inner.withDefault (some value)).render c side).outcome = .ok j ↔
      (inlined (Entries.override e [("default", d)])).outcome = .ok j := by
  rw [render_eq_ok, remarked, shown_withDefault h.shown hd]
  constructor
  · rintro ⟨_, he, hj⟩
    cases he
    exact hj
  · exact fun hj => ⟨_, rfl, hj⟩

theorem render_of_origin {s : Schema} (h : s.Renders c side e) {f : Field TypeExpr}
    (hf : s.origin = some f) : (s.render c side).outcome = .ok j ↔
      (inlined (Entries.override e f.facts.remarks)).outcome = .ok j := by
  rw [render_eq_ok, remarked, h.shown, hf]
  simp [Except.map]

end Schema

/-! ## The theorem -/

/-- Rendering keeps a default, and the examples of a field for which nothing is written by hand,
exactly if no reference to a definition stands in them at any depth; other keys and texts may stand
in them, whatever definitions the schema brings along. -/
theorem rendering_keeps_data {c : Catalog} {side : Side} :
    (∀ inner e value d, Schema.Renders c side inner e → c.data value = .ok d →
      ((∃ j, ((inner.withDefault (some value)).render c side).outcome = .ok j ∧
          j.get? "default" = some d) ↔ SelfContained d)) ∧
    (∀ s e f x xs, Schema.Renders c side s e → s.origin = some f →
      f.facts.examples = some (x :: xs) → f.facts.extra = none →
      ((∃ j, (s.render c side).outcome = .ok j ∧ j.get? "examples" = some (.arr (x :: xs))) ↔
        ∀ d ∈ x :: xs, SelfContained d)) := by
  constructor
  · intro inner e value d hinner hd
    have hwords : ∀ k ∈ ["$ref", "$defs"], k ∉ Entries.keys [("default", d)] := by
      simp [Entries.keys]
    simp only [Schema.render_withDefault hinner hd]
    refine inlined_keeps_iff (hwords _ (by decide)) (hwords _ (by decide)) hinner.nodup
      hinner.inlines List.mem_cons_self ?_ ?_
    · exact (Entries.get?_put e "default" "default" d).trans (if_pos rfl)
    · exact List.forall_mem_singleton.mpr id
  · intro s e f x xs hs ho hexamples hextra
    have hf := Facts.exemplifies hexamples hextra
    simp only [Schema.render_of_origin hs ho]
    rw [← selfContained_arr]
    refine inlined_keeps_iff (hf.words _ (by decide)) (hf.words _ (by decide)) hs.nodup hs.inlines
      (Entries.mem_keys_of_mem hf.examples) ?_ fun p hp hself => ?_
    · rw [Entries.get?_override e hf.nodup, Entries.get?_of_mem hf.nodup hf.examples]
      rfl
    · by_cases hp' : p = ("examples", .arr (x :: xs))
      · rw [hp']
        exact hself
      · exact hf.others p hp hp'

/-! ## Data with the keys of schemas -/

def someText : Schema := .text { type := some .str } none

/-- The field of a text, with an example. -/
def fieldWithExample (d : Json) : Field TypeExpr where
  name := "a"
  type := .str
  facts := { examples := some [d] }

def shownText : Entries Json := [("type", .str "string")]

theorem renders_someText : someText.Renders {} .input shownText where
  shown := by decide +kernel
  nodup := by decide
  inlines := ⟨.obj shownText, by cbv⟩

theorem renders_readFrom (f : Field TypeExpr) :
    (someText.readFrom f).Renders {} .input shownText :=
  ⟨renders_someText.shown, renders_someText.nodup, renders_someText.inlines⟩

/-- A reference to something else than a definition, beside definitions. -/
def foreign : Value := .dict [("$ref", .plain (.str "#/components/schemas/X")),
  ("$defs", .dict [("X", .many .list [.plain (.str "#/$defs/X"), .plain .null])])]

def foreignData : Json := .obj [("$ref", .str "#/components/schemas/X"),
  ("$defs", .obj [("X", .arr [.str "#/$defs/X", .null])])]

theorem selfContained_foreignData : SelfContained foreignData := by
  have hitems : SelfContained (.arr [.str "#/$defs/X", .null]) := by
    rw [selfContained_arr, List.forall_mem_cons, List.forall_mem_singleton]
    exact ⟨selfContained_str _, selfContained_null⟩
  rw [foreignData, selfContained_obj, List.forall_mem_cons, List.forall_mem_singleton,
    selfContained_obj, List.forall_mem_singleton]
  exact ⟨referenceOf?_eq_none_iff.mp rfl, selfContained_str _,
    referenceOf?_eq_none_iff.mp rfl, hitems⟩

/-- Keys of schemas do not matter in data that refers to no definition. -/
theorem rendering_keeps_data_foreign :
    someText.Renders {} .input shownText ∧ Catalog.data {} foreign = .ok foreignData ∧
    (∃ j, ((someText.withDefault (some foreign)).render {} .input).outcome = .ok j ∧
      j.get? "default" = some foreignData) ∧
    (someText.readFrom (fieldWithExample foreignData)).Renders {} .input shownText ∧
    ∃ j, ((someText.readFrom (fieldWithExample foreignData)).render {} .input).outcome = .ok j ∧
      j.get? "examples" = some (.arr [foreignData]) := by
  have hdata : Catalog.data {} foreign = .ok foreignData := by rfl
  have hfield := renders_readFrom (fieldWithExample foreignData)
  obtain ⟨hdefault, hexamples⟩ := @rendering_keeps_data {} .input
  refine ⟨renders_someText, hdata, ?_, hfield, ?_⟩
  · exact (hdefault _ _ _ _ renders_someText hdata).mpr selfContained_foreignData
  · exact (hexamples _ _ (fieldWithExample foreignData) _ _ hfield rfl rfl rfl).mpr
      (List.forall_mem_singleton.mpr selfContained_foreignData)

/-- Data that reads as a reference to a definition. -/
def referring : Value := .dict [("$ref", .plain (.str "#/$defs/X"))]

def referringData : Json := .obj [("$ref", .str "#/$defs/X")]

/-- A default and an example are lost, and reported as references, that read as such. -/
theorem rendering_loses_references :
    Catalog.data {} referring = .ok referringData ∧
    (someText.withDefault (some referring)).render {} .input =
      ⟨[.referenceCut "#/$defs/X"], .ok (.obj [("type", .str "string"), ("default", .obj [])])⟩ ∧
    (someText.readFrom (fieldWithExample referringData)).render {} .input =
      ⟨[.referenceCut "#/$defs/X"],
        .ok (.obj [("type", .str "string"), ("examples", .arr [.obj []])])⟩ := by
  have hdata : Catalog.data {} referring = .ok referringData := by rfl
  refine ⟨hdata, ?_, ?_⟩
  · rw [Schema.render, Schema.shown_withDefault renders_someText.shown hdata]
    cbv
  · rw [Schema.render, (renders_readFrom _).shown]
    cbv

end Procedoc
