import Procedoc.Proofs.Inlining.Reference

/-! # Inlined schemas stand on their own

An inlined schema refers to no definition, at any depth, whatever was cut on the way; and inlining
it again changes nothing.  Both rest on two facts about an object:

* its entry under `$ref` is made from the one that it had, and only a text becomes a text
  (`str_of_expand`), so that an object which is no reference does not become one;
* where an expanded definition is overridden by what stands beside the reference to it, no entry
  under `$ref` is written (`get?_override_siblings`).
-/

namespace Procedoc
set_option autoImplicit false

variable {definitions : Entries Json}

/-! ## Entries of an expanded object -/

theorem str_of_expand {stack : List String} {j : Json} {s : String}
    (h : (expand definitions stack j).value = .str s) : j = .str s := by
  have hobj {e : List (String × Json)} : (expand definitions stack (.obj e)).value ≠ .str s := by
    intro h
    have hobj : (expand definitions stack (.obj e)).value.isObject = true := isObject_expand rfl
    rw [h] at hobj
    cases hobj
  cases j with
  | obj e => exact absurd h hobj
  | arr items =>
    rw [expand_arr] at h
    cases h
  | null | bool | int | decimal | unbounded | str =>
    rw [expand_scalar _ _ (by simp) (by simp)] at h
    exact h

theorem not_refers_expandEntries {stack : List String} {e : List (String × Json)}
    (h : ∀ name, ¬ Refers e name) (name : String) :
    ¬ Refers (expandEntries definitions stack e).value name := by
  intro hr
  rw [Refers, value_expandEntries, Entries.get?_mapValues, Option.map_eq_some_iff] at hr
  obtain ⟨j, hj, hv⟩ := hr
  rw [str_of_expand hv] at hj
  exact h name hj

theorem get?_override_siblings (base : Json) (e : Entries Json) :
    Entries.get? (base.override (.obj (Entries.without e "$ref"))).entries "$ref" =
      Entries.get? base.entries "$ref" :=
  Entries.get?_override_of_notMem (Entries.notMem_keys_without e "$ref")

theorem not_refers_of_get?_eq {e e' : Entries Json} (h : ∀ name, ¬ Refers e name)
    (heq : Entries.get? e' "$ref" = Entries.get? e "$ref") (name : String) : ¬ Refers e' name := by
  rw [Refers, heq]
  exact h name

theorem mem_value_expandEntries {stack : List String} {e : List (String × Json)}
    {p : String × Json} (h : p ∈ (expandEntries definitions stack e).value) :
    ∃ q ∈ e, p = (q.1, (expand definitions stack q.2).value) := by
  rw [value_expandEntries, Entries.mapValues, List.mem_map] at h
  obtain ⟨q, hq, rfl⟩ := h
  exact ⟨q, hq, rfl⟩

/-! ## No reference is left -/

/-- Whatever is open around a value, its expansion mentions no definition. -/
theorem selfContained_expand (stack : List String) (j : Json) :
    SelfContained (expand definitions stack j).value := by
  induction stack, j using expand_induction definitions with
  | scalar stack j ha ho =>
    rw [expand_scalar _ _ ha ho]
    exact selfContained_scalar ha ho
  | arr stack items ih =>
    rw [expand_arr, value_expandList, selfContained_arr]
    intro x hx
    obtain ⟨y, hy, rfl⟩ := List.mem_map.mp hx
    exact ih y hy
  | plain stack e hr ih =>
    rw [expand_plain hr, selfContained_obj]
    refine ⟨not_refers_expandEntries (referenceOf?_eq_none_iff.mp hr), fun p hp => ?_⟩
    obtain ⟨q, hq, rfl⟩ := mem_value_expandEntries hp
    exact ih q hq
  | cut stack e ref name hr hc ih =>
    rw [expand_cut hr hc, selfContained_obj]
    refine ⟨fun other hother => ?_, fun p hp => ?_⟩
    · have hnone := Entries.get?_eq_none_iff.mpr
        (Entries.notMem_keys_without (expandEntries definitions stack e).value "$ref")
      rw [Refers, hnone] at hother
      cases hother
    · obtain ⟨q, hq, rfl⟩ := mem_value_expandEntries (List.mem_filter.mp hp).1
      exact ih q hq
  | followed stack e ref name target hr hs hg ih iht =>
    rw [expand_followed hr hs hg]
    -- a definition that is no object has no entries, so that only what stands beside it is left
    have hbase : SelfContained (.obj (expand definitions (name :: stack) target).value.entries) := by
      cases hv : (expand definitions (name :: stack) target).value with
      | obj base => rwa [hv] at iht
      | _ => exact selfContained_obj.mpr ⟨nofun, nofun⟩
    have hget := get?_override_siblings (expand definitions (name :: stack) target).value
      (expandEntries definitions stack e).value
    rw [selfContained_obj] at hbase
    refine selfContained_obj.mpr ⟨not_refers_of_get?_eq hbase.1 hget, fun p hp => ?_⟩
    rcases Entries.mem_of_mem_override hp with hp | hp
    · exact hbase.2 p hp
    · obtain ⟨q, hq, rfl⟩ := mem_value_expandEntries (List.mem_filter.mp hp).1
      exact ih q hq

theorem expand_of_selfContained (stack : List String) (j : Json) (h : SelfContained j) :
    expand definitions stack j = ⟨j, []⟩ := by
  induction stack, j using expand_induction definitions with
  | scalar stack j ha ho => rw [expand_scalar _ _ ha ho]
  | arr stack items ih =>
    have hx : ∀ x ∈ items, expand definitions stack x = ⟨x, []⟩ := fun x hx =>
      ih x hx (selfContained_arr.mp h x hx)
    have hvalue : items.map (fun j => (expand definitions stack j).value) = items :=
      (List.map_congr_left fun x hm => by rw [hx x hm]).trans (List.map_id' items)
    have hmishaps : items.flatMap (fun j => (expand definitions stack j).mishaps) = [] :=
      List.flatMap_eq_nil_iff.mpr fun x hm => by rw [hx x hm]
    rw [expand_arr, value_expandList, mishaps_expandList, hvalue, hmishaps]
  | plain stack e hr ih =>
    have hp : ∀ p ∈ e, expand definitions stack p.2 = ⟨p.2, []⟩ := fun p hp =>
      ih p hp ((selfContained_obj.mp h).2 p hp)
    have hvalue : Entries.mapValues (fun j => (expand definitions stack j).value) e = e :=
      (List.map_congr_left fun p hm => by simp only [hp p hm]).trans (List.map_id' e)
    have hmishaps : e.flatMap (fun p => (expand definitions stack p.2).mishaps) = [] :=
      List.flatMap_eq_nil_iff.mpr fun p hm => by rw [hp p hm]
    rw [expand_plain hr, value_expandEntries, mishaps_expandEntries, hvalue, hmishaps]
  | cut stack e ref name hr =>
    exact absurd (referenceOf?_eq_some_iff.mp hr).1 ((selfContained_obj.mp h).1 name)
  | followed stack e ref name target hr =>
    exact absurd (referenceOf?_eq_some_iff.mp hr).1 ((selfContained_obj.mp h).1 name)

/-- Expansion leaves alone exactly what mentions no definition. -/
theorem value_expand_eq_iff {stack : List String} {j : Json} :
    (expand definitions stack j).value = j ↔ SelfContained j := by
  constructor
  · intro h
    rw [← h]
    exact selfContained_expand stack j
  · intro h
    rw [expand_of_selfContained stack j h]

/-! ## No definitions are left -/

theorem notMem_siblings {key : String} {stack : List String} {e : List (String × Json)}
    (h : Entries.get? e key = none) :
    key ∉ Entries.keys (Entries.without (expandEntries definitions stack e).value "$ref") := by
  rw [Entries.get?_eq_none_iff] at h
  intro hm
  obtain ⟨p, hp, rfl⟩ := List.mem_map.mp hm
  obtain ⟨q, hq, rfl⟩ := mem_value_expandEntries (List.mem_filter.mp hp).1
  exact h (List.mem_map.mpr ⟨q, hq, rfl⟩)

theorem get?_expand_eq_none {key : String} (stack : List String) (j : Json)
    (hd : ∀ d ∈ definitions, d.2.get? key = none) (hj : j.get? key = none) :
    (expand definitions stack j).value.get? key = none := by
  induction stack, j using expand_induction definitions with
  | scalar stack j ha ho => rwa [expand_scalar _ _ ha ho]
  | arr => rw [expand_arr]; rfl
  | plain stack e hr =>
    rw [expand_plain hr, value_expandEntries]
    simpa [Json.get?, Entries.get?_mapValues] using hj
  | cut stack e ref name hr hc =>
    rw [expand_cut hr hc]
    exact Entries.get?_eq_none_iff.mpr (notMem_siblings hj)
  | followed stack e ref name target hr hs hg ih iht =>
    rw [expand_followed hr hs hg]
    exact (Entries.get?_override_of_notMem (notMem_siblings hj)).trans
      (iht (hd _ (Entries.mem_of_get? hg)))

/-! ## Whole schemas -/

/-- An inlined schema refers to no definition at any depth.  Where no definition brings definitions
of its own, it has none itself, and inlining it again changes nothing and cuts nothing. -/
theorem inlined_selfContained {schema definitions : Entries Json}
    (h : Brings schema definitions) :
    ∃ e, (inlined schema).outcome = .ok (.obj e) ∧
      (∀ e' name, Json.Part (.obj e') (.obj e) →
        Entries.get? e' "$ref" ≠ some (.str (definitionRef name))) ∧
      ((∀ d ∈ definitions, d.2.get? "$defs" = none) →
        Entries.get? e "$defs" = none ∧ (inlined e).outcome = .ok (.obj e) ∧
          (inlined e).events = []) := by
  have hobj : (expand definitions [] (.obj (Entries.without schema "$defs"))).value.isObject =
      true := isObject_expand rfl
  cases hv : (expand definitions [] (.obj (Entries.without schema "$defs"))).value with
  | obj e =>
    have hself : SelfContained (.obj e) := hv ▸ selfContained_expand [] _
    refine ⟨e, by rw [inlined_of_brings h, hv],
      fun e' name hp hr => hself name ⟨e', hp, hr⟩, fun hd => ?_⟩
    have hbody : (Json.obj (Entries.without schema "$defs")).get? "$defs" = none :=
      Entries.get?_eq_none_iff.mpr (Entries.notMem_keys_without schema "$defs")
    have hnone : Entries.get? e "$defs" = none := by
      have := get?_expand_eq_none [] _ hd hbody
      rwa [hv] at this
    have hbrings : Brings e [] := ⟨.inl ⟨hnone, rfl⟩, by simp⟩
    have hwithout := Entries.without_of_notMem (Entries.get?_eq_none_iff.mp hnone)
    have hagain := inlined_of_brings hbrings
    rw [hwithout, expand_of_selfContained [] _ hself] at hagain
    exact ⟨hnone, by rw [hagain], by rw [hagain]; rfl⟩
  | null | bool | int | decimal | unbounded | str | arr =>
    rw [hv] at hobj
    cases hobj

/-- A definition that leads back to itself, from where something stands beside the reference. -/
def loopDefinitions : Entries Json := [
  ("A", .obj [("items", .obj [("$ref", .str "#/$defs/A"), ("title", .str "again")])])]

theorem inlined_selfContained_loop :
    Brings [("$ref", .str "#/$defs/A"), ("$defs", .obj loopDefinitions)] loopDefinitions ∧
      (∀ d ∈ loopDefinitions, d.2.get? "$defs" = none) ∧
      ∃ e, (inlined [("$ref", .str "#/$defs/A"), ("$defs", .obj loopDefinitions)]).outcome =
          .ok (.obj e) ∧
        Entries.get? e "$defs" = none ∧ (inlined e).outcome = .ok (.obj e) ∧
        (inlined e).events = [] := by
  have hb : Brings [("$ref", .str "#/$defs/A"), ("$defs", .obj loopDefinitions)]
      loopDefinitions := ⟨.inr rfl, by simp [loopDefinitions, Json.isObject]⟩
  have hd : ∀ d ∈ loopDefinitions, d.2.get? "$defs" = none := by
    simp [loopDefinitions, Json.get?, Entries.get?]
  obtain ⟨e, he, -, hagain⟩ := inlined_selfContained hb
  exact ⟨hb, hd, e, he, hagain hd⟩

end Procedoc
