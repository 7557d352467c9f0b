import Procedoc.Proofs.Inlining.SelfContained
import Procedoc.Proofs.Likeness

/-! # Entries written over a schema

Inlining goes through the entries of a schema one by one, whatever the schema refers to: an entry
stays under its key and is expanded (`get?_expand_obj`), and what goes wrong in it does not depend
on the others (`exists_mishaps_obj`).  So entries that mention no definition can be written over a
schema without disturbing its inlining (`inlined_override`), and an entry that is written over it is
kept exactly if it mentions none (`inlined_keeps_iff`). -/

namespace Procedoc
set_option autoImplicit false

/-! ## Entries of objects -/

section Entries
variable {definitions : Entries Json} {stack : List String} {e : Entries Json}

theorem nodup_keys_siblings (hn : (Entries.keys e).Nodup) :
    (Entries.keys (Entries.without (expandEntries definitions stack e).value "$ref")).Nodup := by
  refine Entries.nodup_keys_without ?_ _
  rwa [value_expandEntries, Entries.keys_mapValues]

theorem get?_expand_obj (hn : (Entries.keys e).Nodup) {key : String} (hkey : key ≠ "$ref") {v : Json}
    (hv : Entries.get? e key = some v) : (expand definitions stack (.obj e)).value.get? key =
      some (expand definitions stack v).value := by
  have hinside : Entries.get? (expandEntries definitions stack e).value key =
      some (expand definitions stack v).value := by
    rw [value_expandEntries, Entries.get?_mapValues, hv]
    rfl
  have hsiblings : Entries.get? (Entries.without (expandEntries definitions stack e).value "$ref")
      key = some (expand definitions stack v).value := by
    rw [Entries.get?_without, if_neg hkey, hinside]
  cases hr : referenceOf? e with
  | none =>
    rw [expand_plain hr]
    exact hinside
  | some reference =>
    obtain ⟨ref, name⟩ := reference
    by_cases hcut : name ∈ stack ∨ Entries.get? definitions name = none
    · rw [expand_cut hr hcut]
      exact hsiblings
    · obtain ⟨hs, hd⟩ := not_or.mp hcut
      obtain ⟨target, htarget⟩ := Option.ne_none_iff_exists'.mp hd
      rw [expand_followed hr hs htarget]
      dsimp only [Json.override, Json.get?, Json.entries]
      rw [Entries.get?_override _ (nodup_keys_siblings hn), hsiblings]
      rfl

theorem exists_mishaps_obj (definitions : Entries Json) (stack : List String)
    (reference : Option (String × String)) : ∃ rest : List Mishap, ∀ e, referenceOf? e = reference →
      (expand definitions stack (.obj e)).mishaps =
        (expandEntries definitions stack e).mishaps ++ rest := by
  cases reference with
  | none => exact ⟨[], fun e hr => by rw [expand_plain hr, List.append_nil]⟩
  | some reference =>
    obtain ⟨ref, name⟩ := reference
    by_cases hcut : name ∈ stack ∨ Entries.get? definitions name = none
    · exact ⟨[.cut ref], fun e hr => by rw [expand_cut hr hcut]⟩
    · obtain ⟨hs, hd⟩ := not_or.mp hcut
      obtain ⟨target, htarget⟩ := Option.ne_none_iff_exists'.mp hd
      exact ⟨_, fun e hr => by rw [expand_followed hr hs htarget, List.append_assoc]⟩

end Entries

/-! ## Entries of schemas -/

theorem settle_eq_ok {mishaps : List Mishap} :
    (settle mishaps).outcome = .ok () ↔ .unmergeable ∉ mishaps := by
  induction mishaps with
  | nil => exact ⟨fun _ => List.not_mem_nil, fun _ => rfl⟩
  | cons m rest ih =>
    cases m with
    | cut ref =>
      rw [settle, Traced.bind_of_ok (a := ()) _ rfl, ih, List.mem_cons]
      simp
    | unmergeable =>
      constructor
      · intro h
        cases h
      · exact fun h => absurd List.mem_cons_self h

theorem inlined_eq_ok {e : Entries Json} {j : Json} : (inlined e).outcome = .ok j ↔
    ∃ definitions, readDefinitions (Entries.get? e "$defs") = .ok definitions ∧
      .unmergeable ∉ (expand definitions [] (.obj (Entries.without e "$defs"))).mishaps ∧
      (expand definitions [] (.obj (Entries.without e "$defs"))).value = j := by
  rw [inlined, Traced.outcome_bind_eq_ok]
  refine exists_congr fun definitions => and_congr Iff.rfl ?_
  rw [Traced.outcome_bind_eq_ok, ← settle_eq_ok]
  constructor
  · rintro ⟨_, hsettle, hj⟩
    exact ⟨hsettle, Except.ok.inj hj⟩
  · rintro ⟨hsettle, hj⟩
    exact ⟨(), hsettle, congrArg _ hj⟩

section Overriding
variable {e top : Entries Json} (href : "$ref" ∉ Entries.keys top)
  (hdefs : "$defs" ∉ Entries.keys top)
include href hdefs

/-- Entries that mention no definition can be written over a schema that can be inlined. -/
theorem inlined_override (htop : ∀ p ∈ top, SelfContained p.2)
    (h : ∃ j, (inlined e).outcome = .ok j) :
    ∃ j, (inlined (Entries.override e top)).outcome = .ok j := by
  obtain ⟨j, h⟩ := h
  obtain ⟨definitions, hread, hgood, -⟩ := inlined_eq_ok.mp h
  refine ⟨_, inlined_eq_ok.mpr ⟨definitions, ?_, ?_, rfl⟩⟩
  · rwa [Entries.get?_override_of_notMem hdefs]
  have hreference : referenceOf? (Entries.without (Entries.override e top) "$defs") =
      referenceOf? (Entries.without e "$defs") := by
    rw [referenceOf?, referenceOf?, Entries.get?_without, Entries.get?_without,
      Entries.get?_override_of_notMem href]
  obtain ⟨rest, hmishaps⟩ := exists_mishaps_obj definitions []
    (referenceOf? (Entries.without e "$defs"))
  rw [hmishaps _ rfl, mishaps_expandEntries, List.mem_append, List.mem_flatMap, not_or] at hgood
  rw [hmishaps _ hreference, mishaps_expandEntries, List.mem_append, List.mem_flatMap]
  rintro (⟨p, hp, hbad⟩ | hbad)
  · obtain ⟨hmem, hne⟩ := List.mem_filter.mp hp
    rcases Entries.mem_of_mem_override hmem with hmem | hmem
    · exact hgood.1 ⟨p, List.mem_filter.mpr ⟨hmem, hne⟩, hbad⟩
    · rw [expand_of_selfContained [] p.2 (htop p hmem)] at hbad
      cases hbad
  · exact hgood.2 hbad

omit href in
theorem get?_inlined (hn : (Entries.keys e).Nodup) {key : String} (hkey : key ≠ "$ref") {v : Json}
    (hv : Entries.get? (Entries.override e top) key = some v) (hmem : key ∈ Entries.keys top)
    {j : Json} (hj : (inlined (Entries.override e top)).outcome = .ok j) :
    ∃ definitions, j.get? key = some (expand definitions [] v).value := by
  obtain ⟨definitions, -, -, rfl⟩ := inlined_eq_ok.mp hj
  have hne : key ≠ "$defs" := fun h => hdefs (h ▸ hmem)
  refine ⟨definitions, get?_expand_obj ?_ hkey ?_⟩
  · exact Entries.nodup_keys_without (Entries.nodup_keys_override hn _) _
  · rwa [Entries.get?_without, if_neg hne]

/-- An entry that is written over a schema is kept exactly if it mentions no definition. -/
theorem inlined_keeps_iff (hn : (Entries.keys e).Nodup) (h : ∃ j, (inlined e).outcome = .ok j)
    {key : String} (hmem : key ∈ Entries.keys top) {v : Json}
    (hv : Entries.get? (Entries.override e top) key = some v)
    (htop : ∀ p ∈ top, SelfContained v → SelfContained p.2) :
    (∃ j, (inlined (Entries.override e top)).outcome = .ok j ∧ j.get? key = some v) ↔
      SelfContained v := by
  have hkey : key ≠ "$ref" := fun h => href (h ▸ hmem)
  constructor
  · rintro ⟨j, hj, hget⟩
    obtain ⟨definitions, hexpand⟩ := get?_inlined hdefs hn hkey hv hmem hj
    exact value_expand_eq_iff.mp (Option.some.inj (hexpand.symm.trans hget))
  · intro hself
    obtain ⟨j, hj⟩ := inlined_override href hdefs (fun p hp => htop p hp hself) h
    obtain ⟨definitions, hexpand⟩ := get?_inlined hdefs hn hkey hv hmem hj
    exact ⟨j, hj, by rw [hexpand, value_expand_eq_iff.mpr hself]⟩

end Overriding

end Procedoc
