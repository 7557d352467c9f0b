import Procedoc.Proofs.Inlining.Unfolding
import Procedoc.Proofs.Likeness

/-! # What inlining does not depend on

The names of definitions, their order, and definitions that nothing leads to leave no trace in an
inlined schema (`inlined_ignores_names`).

* `Json.renamed f` gives each reference in a value the name that `f` makes of its own; texts that do
  not make an object a reference stay.  Where `f` keeps names apart, an expansion of what was renamed
  goes the same way, on a renamed stack (`expand_renamed`), and no name is left in what comes out.
* What a value does not reach is not looked up in its expansion (`expand_congr`).
-/

namespace Procedoc
set_option autoImplicit false

/-! ## Renaming -/

mutual
/-- A value with other names in its references. -/
def Json.renamed (f : String → String) : Json → Json
  | .arr items => .arr (renamedList f items)
  | .obj e =>
    match referenceOf? e with
    | some (_, name) => .obj (Entries.put (renamedEntries f e) "$ref" (.str (definitionRef (f name))))
    | none => .obj (renamedEntries f e)
  | j => j

def Json.renamedList (f : String → String) : List Json → List Json
  | [] => []
  | j :: rest => Json.renamed f j :: renamedList f rest

def Json.renamedEntries (f : String → String) : List (String × Json) → List (String × Json)
  | [] => []
  | (key, j) :: rest => (key, Json.renamed f j) :: renamedEntries f rest
end

def renamedDefinitions (f : String → String) (definitions : Entries Json) : Entries Json :=
  definitions.map fun d => (f d.1, d.2.renamed f)

/-- A reference with another name; a text that is none stays. -/
def renamedRef (f : String → String) (ref : String) : String :=
  match definitionName? ref with
  | some name => definitionRef (f name)
  | none => ref

def Mishap.renamed (f : String → String) : Mishap → Mishap
  | .cut ref => .cut (renamedRef f ref)
  | .unmergeable => .unmergeable

/-- An event with another name in the reference that it is about. -/
def Event.renamed (f : String → String) : Event → Event
  | .referenceCut ref => .referenceCut (renamedRef f ref)
  | event => event

@[simp] theorem renamedRef_definitionRef (f : String → String) (name : String) :
    renamedRef f (definitionRef name) = definitionRef (f name) := by
  rw [renamedRef, definitionName?_definitionRef]

namespace Json
variable {f : String → String}

theorem renamedList_eq (items : List Json) : renamedList f items = items.map (renamed f) := by
  induction items with
  | nil => rfl
  | cons j rest ih => rw [renamedList, ih, List.map_cons]

theorem renamedEntries_eq (e : List (String × Json)) :
    renamedEntries f e = Entries.mapValues (renamed f) e := by
  induction e with
  | nil => rfl
  | cons p rest ih => rw [renamedEntries, ih]; rfl

@[simp] theorem renamed_arr (items : List Json) :
    renamed f (.arr items) = .arr (items.map (renamed f)) := by
  rw [renamed, renamedList_eq]

theorem renamed_scalar {j : Json} (ha : ∀ items, j ≠ .arr items) (ho : ∀ e, j ≠ .obj e) :
    renamed f j = j := by
  cases j with
  | arr items => exact absurd rfl (ha items)
  | obj e => exact absurd rfl (ho e)
  | _ => rfl

theorem renamed_plain {e : List (String × Json)} (hr : referenceOf? e = none) :
    renamed f (.obj e) = .obj (Entries.mapValues (renamed f) e) := by
  rw [renamed]
  simp only [hr, renamedEntries_eq]

theorem renamed_reference {e : List (String × Json)} {ref name : String}
    (hr : referenceOf? e = some (ref, name)) : renamed f (.obj e) =
      .obj (Entries.put (Entries.mapValues (renamed f) e) "$ref"
        (.str (definitionRef (f name)))) := by
  rw [renamed]
  simp only [hr, renamedEntries_eq]

theorem str_of_renamed {j : Json} {s : String} (h : renamed f j = .str s) : j = .str s := by
  cases j with
  | arr items =>
    rw [renamed_arr] at h
    cases h
  | obj e =>
    rw [renamed] at h
    split at h <;> cases h
  | null | bool | int | decimal | unbounded | str => exact h

end Json

section Renaming
variable {f : String → String} {definitions : Entries Json} {e : List (String × Json)}

theorem referenceOf?_mapValues_renamed (hr : referenceOf? e = none) :
    referenceOf? (Entries.mapValues (Json.renamed f) e) = none := by
  refine referenceOf?_eq_none_iff.mpr fun name hn => ?_
  rw [Refers, Entries.get?_mapValues, Option.map_eq_some_iff] at hn
  obtain ⟨j, hj, hs⟩ := hn
  rw [Json.str_of_renamed hs] at hj
  exact referenceOf?_eq_none_iff.mp hr name hj

theorem referenceOf?_put_ref (e : Entries Json) (name : String) :
    referenceOf? (Entries.put e "$ref" (.str (definitionRef name))) =
      some (definitionRef name, name) := by
  refine referenceOf?_eq_some_iff.mpr ⟨?_, rfl⟩
  rw [Refers, Entries.get?_put, if_pos rfl]

theorem get?_renamedDefinitions (hf : Function.Injective f) (definitions : Entries Json)
    (name : String) : Entries.get? (renamedDefinitions f definitions) (f name) =
      (Entries.get? definitions name).map (Json.renamed f) := by
  induction definitions with
  | nil => rfl
  | cons d rest ih =>
    rw [renamedDefinitions, List.map_cons, Entries.get?, Entries.get?]
    by_cases h : d.1 = name
    · rw [if_pos h, if_pos (congrArg f h)]
      rfl
    · rw [if_neg h, if_neg fun heq => h (hf heq)]
      exact ih

/-! ## Entries under references -/

theorem Entries.without_put (e : Entries Json) (key : String) (j : Json) :
    Entries.without (Entries.put e key j) key = Entries.without e key := by
  induction e with
  | nil => simp [Entries.put, Entries.without]
  | cons p rest ih =>
    rw [Entries.put]
    split
    · rename_i h
      simp [Entries.without, h]
    · rename_i h
      simpa [Entries.without, h] using ih

/-- What is gathered from values stays where one is replaced from which nothing is gathered by
another such. -/
theorem Entries.flatMap_put {α : Type} (g : Json → List α) {key : String} {j j' : Json}
    (hj : g j = []) (hj' : g j' = []) {e : Entries Json} (h : Entries.get? e key = some j) :
    (Entries.put e key j').flatMap (fun p => g p.2) = e.flatMap fun p => g p.2 := by
  induction e with
  | nil => cases h
  | cons p rest ih =>
    rw [Entries.get?] at h
    rw [Entries.put]
    split at h
    · rename_i hk
      rw [if_pos hk, List.flatMap_cons, List.flatMap_cons, Option.some.inj h, hj, hj']
    · rename_i hk
      rw [if_neg hk, List.flatMap_cons, List.flatMap_cons, ih h]

/-! ## Expansion under other names -/

def Expansion.renamed {α : Type} (f : String → String) (x : Expansion α) : Expansion α :=
  ⟨x.value, x.mishaps.map (Mishap.renamed f)⟩

section Entries
variable {stack stack' : List String} {definitions' : Entries Json}
  (h : ∀ p ∈ e, expand definitions' stack' (p.2.renamed f) =
    (expand definitions stack p.2).renamed f)
include h

theorem expandEntries_renamed :
    expandEntries definitions' stack' (Entries.mapValues (Json.renamed f) e) =
      (expandEntries definitions stack e).renamed f := by
  induction e with
  | nil => rw [expandEntries, Entries.mapValues, List.map_nil, expandEntries]; rfl
  | cons p rest ih =>
    have hrest := ih fun q hq => h q (List.mem_cons_of_mem _ hq)
    rw [Entries.mapValues, List.map_cons, expandEntries, expandEntries]
    rw [Entries.mapValues] at hrest
    rw [hrest, h p (List.mem_cons_self ..)]
    simp [Expansion.renamed]

theorem without_expandEntries_renamed (ref : Json) :
    Entries.without (expandEntries definitions' stack'
        (Entries.put (Entries.mapValues (Json.renamed f) e) "$ref" ref)).value "$ref" =
      Entries.without (expandEntries definitions stack e).value "$ref" := by
  have hvalue := congrArg Expansion.value (expandEntries_renamed h)
  rw [value_expandEntries, ← Entries.mapValues_without, Entries.without_put,
    Entries.mapValues_without, ← value_expandEntries, hvalue]
  rfl

theorem mishaps_expandEntries_renamed {ref name : String}
    (hr : referenceOf? e = some (ref, name)) (name' : String) :
    (expandEntries definitions' stack' (Entries.put (Entries.mapValues (Json.renamed f) e) "$ref"
        (.str (definitionRef name')))).mishaps =
      (expandEntries definitions stack e).mishaps.map (Mishap.renamed f) := by
  have hstr (s : String) : (expand definitions' stack' (.str s)).mishaps = [] := by
    rw [expand_scalar _ _ (by simp) (by simp)]
  have hget : Entries.get? (Entries.mapValues (Json.renamed f) e) "$ref" =
      some (.str (definitionRef name)) := by
    rw [Entries.get?_mapValues, (referenceOf?_eq_some_iff.mp hr).1]
    rfl
  have hmishaps := congrArg Expansion.mishaps (expandEntries_renamed h)
  rw [mishaps_expandEntries,
    Entries.flatMap_put (fun j => (expand definitions' stack' j).mishaps) (hstr _) (hstr _) hget,
    ← mishaps_expandEntries, hmishaps]
  rfl

end Entries

/-- Under names that are kept apart, an expansion comes to the same value, and reports the same
under these names. -/
theorem expand_renamed (hf : Function.Injective f) (stack : List String) (j : Json) :
    expand (renamedDefinitions f definitions) (stack.map f) (j.renamed f) =
      (expand definitions stack j).renamed f := by
  have hmem {name : String} {stack : List String} : f name ∈ stack.map f ↔ name ∈ stack :=
    List.mem_map_of_injective hf
  induction stack, j using expand_induction definitions with
  | scalar stack j ha ho =>
    rw [Json.renamed_scalar ha ho, expand_scalar _ _ ha ho, expand_scalar _ _ ha ho]
    rfl
  | arr stack items ih =>
    have hvalues := List.map_congr_left fun x hx => congrArg Expansion.value (ih x hx)
    have hmishaps := List.flatMap_congr fun x hx => congrArg Expansion.mishaps (ih x hx)
    rw [Json.renamed_arr, expand_arr, expand_arr, value_expandList, value_expandList,
      mishaps_expandList, mishaps_expandList, List.map_map, List.flatMap_map, hmishaps]
    simp only [Expansion.renamed, List.map_flatMap] at hvalues ⊢
    rw [← hvalues]
    rfl
  | plain stack e hr ih =>
    rw [Json.renamed_plain hr, expand_plain (referenceOf?_mapValues_renamed hr), expand_plain hr,
      expandEntries_renamed ih]
    rfl
  | cut stack e ref name hr hc ih =>
    have hc' : f name ∈ stack.map f ∨
        Entries.get? (renamedDefinitions f definitions) (f name) = none := by
      rwa [hmem, get?_renamedDefinitions hf, Option.map_eq_none_iff]
    obtain ⟨-, rfl⟩ := referenceOf?_eq_some_iff.mp hr
    rw [Json.renamed_reference hr, expand_cut (referenceOf?_put_ref _ _) hc', expand_cut hr hc,
      without_expandEntries_renamed ih, mishaps_expandEntries_renamed ih hr]
    simp [Expansion.renamed, Mishap.renamed]
  | followed stack e ref name target hr hs hd ih iht =>
    have hd' : Entries.get? (renamedDefinitions f definitions) (f name) =
        some (target.renamed f) := by
      rw [get?_renamedDefinitions hf, hd]
      rfl
    rw [List.map_cons] at iht
    rw [Json.renamed_reference hr, expand_followed (referenceOf?_put_ref _ _) (hmem.not.mpr hs) hd',
      expand_followed hr hs hd, without_expandEntries_renamed ih,
      mishaps_expandEntries_renamed ih hr, iht]
    simp only [Expansion.renamed, List.map_append]
    rw [apply_ite (List.map (Mishap.renamed f))]
    rfl

end Renaming

/-! ## Definitions that are not reached -/

/-- An expansion looks up no name but those that its value reaches. -/
theorem expand_congr {definitions definitions' : Entries Json} (stack : List String) (j : Json)
    (h : ∀ name, Reaches definitions j name →
      Entries.get? definitions' name = Entries.get? definitions name) :
    expand definitions' stack j = expand definitions stack j := by
  have hentries {stack : List String} {e : List (String × Json)}
      (hp : ∀ p ∈ e, expand definitions' stack p.2 = expand definitions stack p.2) :
      expandEntries definitions' stack e = expandEntries definitions stack e := by
    induction e with
    | nil => rw [expandEntries, expandEntries]
    | cons p rest ih =>
      rw [expandEntries, expandEntries, ih fun q hq => hp q (List.mem_cons_of_mem _ hq),
        hp p (List.mem_cons_self ..)]
  induction stack, j using expand_induction definitions with
  | scalar stack j ha ho => rw [expand_scalar _ _ ha ho, expand_scalar _ _ ha ho]
  | arr stack items ih =>
    have hx (x : Json) (hx : x ∈ items) := ih x hx fun name hn => h name (.arr hx hn)
    rw [expand_arr, expand_arr, value_expandList, value_expandList, mishaps_expandList,
      mishaps_expandList, List.map_congr_left fun x hm => congrArg Expansion.value (hx x hm),
      List.flatMap_congr fun x hm => congrArg Expansion.mishaps (hx x hm)]
  | plain stack e hr ih =>
    rw [expand_plain hr, expand_plain hr,
      hentries fun p hp => ih p hp fun name hn => h name (.obj hp hn)]
  | cut stack e ref name hr hc ih =>
    have hrefers := (referenceOf?_eq_some_iff.mp hr).1
    have hc' : name ∈ stack ∨ Entries.get? definitions' name = none := by
      rwa [h name (.refers hrefers)]
    rw [expand_cut hr hc', expand_cut hr hc,
      hentries fun p hp => ih p hp fun name hn => h name (.obj hp hn)]
  | followed stack e ref name target hr hs hd ih iht =>
    have hrefers := (referenceOf?_eq_some_iff.mp hr).1
    have hd' : Entries.get? definitions' name = some target := by
      rw [h name (.refers hrefers), hd]
    rw [expand_followed hr hs hd', expand_followed hr hs hd,
      iht fun name hn => h name (.target hrefers hd hn),
      hentries fun p hp => ih p hp fun name hn => h name (.obj hp hn)]

/-! ## Whole schemas -/

/-- Whether a schema is another one with other names for its definitions. -/
structure Renames (f : String → String) (definitions schema schema' : Entries Json) : Prop where
  body : Json.obj (Entries.without schema' "$defs") =
    (Json.obj (Entries.without schema "$defs")).renamed f
  brings : Brings schema' (renamedDefinitions f definitions)

/-- Whether a schema is another one up to its definitions. -/
structure SharesBody (schema schema' definitions' : Entries Json) : Prop where
  body : Entries.without schema' "$defs" = Entries.without schema "$defs"
  brings : Brings schema' definitions'

theorem inlined_of_agrees {schema definitions schema' definitions' : Entries Json}
    (h : Brings schema definitions) (h' : SharesBody schema schema' definitions')
    (hget : ∀ name, Reaches definitions (.obj (Entries.without schema "$defs")) name →
      Entries.get? definitions' name = Entries.get? definitions name) :
    inlined schema' = inlined schema := by
  rw [inlined_of_brings h'.brings, inlined_of_brings h, h'.body, expand_congr [] _ hget]

/-- An inlined schema, and what is reported on the way, does not depend on the names of the
definitions: under others that are kept apart the schema is the same, and the events are the same
with these names.  Nor do they depend on definitions that nothing leads to, or on their order. -/
theorem inlined_ignores_names {schema definitions : Entries Json} (h : Brings schema definitions) :
    (∀ f : String → String, Function.Injective f → ∀ schema',
      Renames f definitions schema schema' →
      (inlined schema').outcome = (inlined schema).outcome ∧
        (inlined schema').events = (inlined schema).events.map (Event.renamed f)) ∧
    (∀ schema' definitions', SharesBody schema schema' definitions' →
      (∀ name, Reaches definitions (.obj (Entries.without schema "$defs")) name →
        Entries.get? definitions' name = Entries.get? definitions name) →
      inlined schema' = inlined schema) ∧
    (∀ schema' definitions', SharesBody schema schema' definitions' →
      (Entries.keys definitions).Nodup → definitions.Perm definitions' →
      inlined schema' = inlined schema) := by
  refine ⟨fun f hf schema' h' => ?_, fun schema' definitions' h' hget => inlined_of_agrees h h' hget,
    fun schema' definitions' h' hn hp => inlined_of_agrees h h' fun name _ =>
      (Json.get?_perm hp hn name).symm⟩
  have hx : expand (renamedDefinitions f definitions) []
      (Json.renamed f (.obj (Entries.without schema "$defs"))) =
      (expand definitions [] (.obj (Entries.without schema "$defs"))).renamed f :=
    expand_renamed hf [] _
  rw [inlined_of_brings h'.brings, inlined_of_brings h, h'.body, hx]
  refine ⟨rfl, ?_⟩
  have hcuts (mishaps : List Mishap) :
      cuts (mishaps.map (Mishap.renamed f)) = (cuts mishaps).map (renamedRef f) := by
    rw [cuts, cuts, List.filterMap_map, List.map_filterMap]
    congr 1
    funext m
    cases m <;> rfl
  rw [Expansion.renamed, hcuts, List.map_map, List.map_map]
  rfl

/-- A definition that leads to itself and to a name without definition. -/
def tangle (own other : String) : Json := .obj [
  ("items", .obj [("$ref", .str (definitionRef own)), ("title", .str "again")]),
  ("not", .obj [("$ref", .str (definitionRef other))])]

/-- A schema that refers to a definition, with some definitions. -/
def tangledSchema (name : String) (definitions : Entries Json) : Entries Json :=
  [("$ref", .str (definitionRef name)), ("$defs", .obj definitions)]

theorem reaches_tangle {definitions : Entries Json}
    (hA : Entries.get? definitions "A" = some (tangle "A" "B"))
    (hB : Entries.get? definitions "B" = none) {name : String}
    (h : Reaches definitions (.obj (Entries.without (tangledSchema "A" definitions) "$defs")) name) :
    name = "A" ∨ name = "B" := by
  have hstr (s name : String) : ¬ Mentions (.str s) name := fun ⟨e, hp, _⟩ => by cases hp
  obtain ⟨first, hm, hl⟩ := h
  induction hl with
  | refl =>
    simp [tangledSchema, Entries.without, mentions_obj, Refers, Entries.get?, hstr, definitionRef_inj] at hm
    exact .inl hm.symm
  | @tail next name _ hl ih =>
    obtain ⟨target, ht, hm⟩ := hl
    rcases ih with rfl | rfl
    · rw [hA] at ht
      cases ht
      simp [tangle, mentions_obj, Refers, Entries.get?, hstr, definitionRef_inj] at hm
      exact hm.imp Eq.symm Eq.symm
    · rw [hB] at ht
      cases ht

/-- Under names with a letter in front, and with other definitions around the one that is reached,
the schema shows and reports the same. -/
theorem inlined_ignores_names_tangle :
    let definitions : Entries Json := [("A", tangle "A" "B"), ("C", .obj [])]
    let longer : Entries Json := [("xA", tangle "xA" "xB"), ("xC", .obj [])]
    let padded : Entries Json := [("D", tangle "D" "C"), ("C", .obj [("title", .str "C")]),
      ("A", tangle "A" "B")]
    Brings (tangledSchema "A" definitions) definitions ∧
    (inlined (tangledSchema "xA" longer)).outcome =
      (inlined (tangledSchema "A" definitions)).outcome ∧
    (inlined (tangledSchema "xA" longer)).events =
      (inlined (tangledSchema "A" definitions)).events.map (Event.renamed ("x" ++ ·)) ∧
    inlined (tangledSchema "A" padded) = inlined (tangledSchema "A" definitions) ∧
    inlined (tangledSchema "A" definitions.reverse) = inlined (tangledSchema "A" definitions) := by
  intro definitions longer padded
  have brings {name : String} {ds : Entries Json} (h : ∀ d ∈ ds, d.2.isObject = true) :
      Brings (tangledSchema name ds) ds := ⟨.inr rfl, h⟩
  have hb : Brings (tangledSchema "A" definitions) definitions :=
    brings (by simp [definitions, tangle, Json.isObject])
  have hinj : Function.Injective fun name : String => "x" ++ name := fun a b h => by
    simpa using h
  obtain ⟨hnames, hpadding, horder⟩ := inlined_ignores_names hb
  obtain ⟨houtcome, hevents⟩ := hnames _ hinj (tangledSchema "xA" longer)
    ⟨by cbv, brings (by simp [longer, tangle, Json.isObject])⟩
  refine ⟨hb, houtcome, hevents, hpadding _ padded ⟨rfl, brings ?_⟩ fun name hn => ?_,
    horder _ _ ⟨rfl, brings ?_⟩ (by decide) (List.reverse_perm _).symm⟩
  · simp [padded, tangle, Json.isObject]
  · rcases reaches_tangle rfl rfl hn with rfl | rfl <;> rfl
  · simp [definitions, tangle, Json.isObject]

end Procedoc
