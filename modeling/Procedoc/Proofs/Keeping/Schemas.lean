import Procedoc.Proofs.Keeping.Shaping
import Procedoc.Proofs.Omission.Reduced
import Procedoc.Proofs.Operation.Placement

/-! # Schemas that obey

A schema obeys a norm if all that is said in its types, its wrappers and its settings does
(`Schema.Obeys`).  So does then the type that it stands for (`Schema.obeys_type`), and what is read
from sources that obey (`Schema.obeys_ofSource`), be it as a whole or split along a template.

A catalog that obeys does so after a procedure whose sources obey was documented
(`Procedure.Obeys.heed`). -/

namespace Procedoc
set_option autoImplicit false

variable {N : Norm} {makes : Prop}

/-! ## Schemas -/

structure Leaf.Obeys (N : Norm) (l : Leaf) : Prop where
  type : ∀ a, l.type = some a → a.Obeys N True
  marks : ∀ m ∈ l.marks, m.Obeys N

def Wrapper.Obeys (N : Norm) : Wrapper → Prop
  | optional => True
  | default value => ∀ v, value = some v → N.value v
  | effect checks => ∀ m ∈ checks, m.Obeys N

mutual
/-- Whether all that is said in a schema is such as a norm allows, and in the fields that it and its
parts were read from. -/
def Schema.Obeys (N : Norm) : Schema → Prop
  | .text leaf o | .other leaf o => leaf.Obeys N ∧ ∀ f, o = some f → f.Obeys N True
  | .wrapped w none o => w.Obeys N ∧ ∀ f, o = some f → f.Obeys N True
  | .wrapped w (some s) o => (w.Obeys N ∧ Obeys N s) ∧ ∀ f, o = some f → f.Obeys N True
  | .object head fields o =>
    ((Json.obj (head.config.getD [])).Obeys N ∧ AllObey N fields) ∧ ∀ f, o = some f → f.Obeys N True

def Schema.AllObey (N : Norm) : List (String × Schema) → Prop
  | [] => True
  | (_, s) :: rest => Schema.Obeys N s ∧ AllObey N rest
end

def Source.Obeys (N : Norm) : Source → Prop
  | type a => a.Obeys N True
  | schema s => s.Obeys N
  | value _ => True

/-! ## Fields -/

theorem Norm.value_null (N : Norm) : N.value .null := N.value_of_data .null trivial

namespace Field

theorem Obeys.mono {f : Field TypeExpr} (h : f.Obeys N False) : f.Obeys N makes :=
  ⟨h.type.mono, h.marks, h.facts⟩

theorem obeys_flatMap_flatten {marks : List Mark} (h : ∀ m ∈ marks, m.Obeys N) :
    ∀ m ∈ marks.flatMap flatten, m.Obeys N := by
  intro m hm
  obtain ⟨n, hn, hm⟩ := List.mem_flatMap.mp hm
  exact obeys_flatten (h n hn) m hm

theorem obeys_stated? {name : String} {type : TypeExpr} (ht : type.Obeys N makes)
    {fallback : Fallback} (hf : fallback.Obeys N) {f : Field TypeExpr}
    (h : Field.stated? name type fallback = some f) : f.Obeys N makes := by
  rw [Field.stated?] at h
  dsimp only at h
  split at h
  · cases h
  · cases h
    obtain ⟨hbase, hmarks⟩ := ht.unmarked
    have hfacts := obeys_factsOf hmarks
    refine ⟨hbase, obeys_flatMap_flatten hmarks, ⟨?_, hfacts.examples, hfacts.extra⟩⟩
    dsimp only
    split
    · -- what is made anew is not shown
      intro v hv
      cases hlast : (List.filterMap Fallback.made? (fallbacksOf type.unmarked.2)).getLast? with
      | none =>
        rw [hlast] at hv
        cases hv
      | some made =>
        rw [hlast] at hv
        cases hv
    · exact hf

theorem Obeys.underRule {f : Field TypeExpr} (h : f.Obeys N makes) (rule : Option (String → String)) :
    (f.underRule rule).Obeys N makes := by
  unfold Field.underRule
  split
  · split
    · exact h
    · exact ⟨h.type, h.marks, h.facts⟩
  · exact h

theorem eq_of_kept? {config : Config} {f g : Field TypeExpr} (h : f.kept? config = .ok (some g)) :
    g = f := by
  rw [Field.kept?] at h
  obtain ⟨standing, -, h⟩ := exists_of_bind_eq_ok h
  cases standing <;> cases h <;> rfl

end Field

theorem Record.obeys_assemble {name : String} {doc : Option String} {config : Config}
    (hconfig : (Json.obj config).Obeys N) {fields : List (Field TypeExpr)}
    (hf : ∀ f ∈ fields, f.Obeys N makes) {r : Record TypeExpr}
    (h : Record.assemble name doc config fields = .ok r) : r.Obeys N makes := by
  rw [Record.assemble] at h
  obtain ⟨kept, hkept, h⟩ := exists_of_bind_eq_ok h
  cases h
  have hput : ∀ (kept before : List (Field TypeExpr)), (∀ f ∈ kept, f.Obeys N makes) →
      (∀ f ∈ before, f.Obeys N makes) → ∀ f ∈ kept.foldl putField before, f.Obeys N makes := by
    intro kept
    induction kept with
    | nil => exact fun _ _ hbefore => hbefore
    | cons g rest ih =>
      intro before hall hbefore
      rw [List.forall_mem_cons] at hall
      refine ih _ hall.2 fun f hmem => ?_
      exact (mem_putField hmem).elim (hbefore f) fun heq => heq ▸ hall.1
  refine ⟨hconfig, fun f hmem => ?_⟩
  obtain ⟨g, hg, rfl⟩ := List.mem_map.mp hmem
  refine (hput kept [] (fun k hk => ?_) (fun _ h => by cases h) g hg).underRule _
  obtain ⟨f, hmem, hf'⟩ := exists_of_mem_filterMapM hkept hk
  exact Field.eq_of_kept? hf' ▸ hf f hmem

/-! ## Types of schemas -/

theorem TypeExpr.Obeys.described {a : TypeExpr} (h : a.Obeys N makes) {marks : List Mark}
    (hm : ∀ m ∈ marks, m.Obeys N) (description : Option String) :
    (a.described marks description).Obeys N makes := by
  unfold TypeExpr.described
  split
  · split
    · exact h.withMarks hm
    · refine h.withMarks (List.forall_mem_append.mpr ⟨hm, List.forall_mem_singleton.mpr ?_⟩)
      exact ⟨⟨fun _ h => (by cases h), fun _ h => (by cases h), fun _ h => (by cases h)⟩,
        fun _ h => (by cases h)⟩
  · exact h.withMarks hm

namespace Schema

theorem allObey_iff {fields : List (String × Schema)} :
    AllObey N fields ↔ ∀ p ∈ fields, p.2.Obeys N := by
  induction fields with
  | nil => simp [AllObey]
  | cons p rest ih => rw [AllObey, ih, List.forall_mem_cons]

theorem obeys_object {head : Head} {fields : List (String × Schema)} {o : Option (Field TypeExpr)} :
    (object head fields o).Obeys N ↔ (Json.obj (head.config.getD [])).Obeys N ∧
      (∀ p ∈ fields, p.2.Obeys N) ∧ ∀ f, o = some f → f.Obeys N True := by
  rw [Obeys, allObey_iff, and_assoc]

theorem Obeys.wrapper {w : Wrapper} {inner : Option Schema} {o : Option (Field TypeExpr)}
    (h : (wrapped w inner o).Obeys N) : w.Obeys N ∧ ∀ f, o = some f → f.Obeys N True := by
  cases inner with
  | none => rwa [Obeys] at h
  | some s =>
    rw [Obeys] at h
    exact ⟨h.1.1, h.2⟩

theorem Obeys.origin {s : Schema} (h : s.Obeys N) {f : Field TypeExpr} (hf : s.origin = some f) :
    f.Obeys N True := by
  cases s with
  | wrapped => exact h.wrapper.2 f hf
  | text | other | object =>
    rw [Obeys] at h
    exact h.2 f hf

theorem Obeys.fallback {s : Schema} (h : s.Obeys N) : s.fallback.Obeys N := by
  unfold Schema.fallback
  split
  · exact fun v hv => Option.some.inj hv ▸ N.value_null
  · rename_i value _ _
    intro v hv
    obtain rfl : value.getD .null = v := Option.some.inj hv
    cases value with
    | none => exact N.value_null
    | some v => exact h.wrapper.1 v rfl
  · exact fun _ hv => by cases hv

theorem obeys_leafType {leaf : Leaf} (h : leaf.Obeys N) {fallback : TypeExpr}
    (hf : fallback.Obeys N True) : (leafType leaf fallback).Obeys N True := by
  refine TypeExpr.Obeys.described ?_ h.marks _
  cases ht : leaf.type with
  | none => exact hf
  | some a => exact h.type a ht

theorem obeys_fieldOfType {name : String} {s : Schema} (h : s.Obeys N) {type : Except Fault TypeExpr}
    (ht : ∀ a, type = .ok a → a.Obeys N True) {f : Field TypeExpr}
    (hf : fieldOfType name s type = .ok f) : f.Obeys N True := by
  unfold fieldOfType at hf
  split at hf
  · rename_i g hg
    cases hf
    exact ⟨(h.origin hg).type, (h.origin hg).marks, (h.origin hg).facts⟩
  · obtain ⟨a, ha, hf⟩ := exists_of_bind_eq_ok hf
    split at hf
    · rename_i g hg
      cases hf
      exact Field.obeys_stated? (ht a ha) h.fallback hg
    · cases hf

mutual
theorem obeys_type : (s : Schema) → s.Obeys N → ∀ a, s.type = .ok a → a.Obeys N True
  | text leaf _, h, a, ha => by
    rw [Obeys] at h
    rw [Schema.type] at ha
    cases ha
    exact obeys_leafType h.1 trivial
  | other leaf _, h, a, ha => by
    rw [Obeys] at h
    rw [Schema.type] at ha
    cases ha
    exact obeys_leafType h.1 trivial
  | wrapped w none _, _, a, ha => by
    rw [Schema.type] at ha
    cases ha
  | wrapped w (some s) _, h, a, ha => by
    rw [Obeys] at h
    rw [Schema.type] at ha
    obtain ⟨b, hb, ha⟩ := exists_of_bind_eq_ok ha
    have hobeys := obeys_type s h.1.2 b hb
    cases w with
    | optional =>
      cases ha
      exact hobeys.optional
    | default v =>
      cases ha
      exact hobeys
    | effect checks =>
      cases ha
      exact hobeys.withMarks h.1.1
  | object head fields _, h, a, ha => by
    rw [Obeys] at h
    rw [Schema.type] at ha
    split at ha
    · cases ha
      trivial
    · obtain ⟨made, hmade, ha⟩ := exists_of_bind_eq_ok ha
      obtain ⟨r, hr, ha⟩ := exists_of_bind_eq_ok ha
      cases ha
      exact TypeExpr.obeys_record.mpr
        ⟨trivial, Record.obeys_assemble h.1.1 (obeys_fieldsOf fields h.1.2 made hmade) hr⟩

theorem obeys_fieldsOf : (fields : List (String × Schema)) → AllObey N fields →
    ∀ made, fieldsOf fields = .ok made → ∀ f ∈ made, f.Obeys N True
  | [], _, made, h => by
    rw [fieldsOf] at h
    cases h
    exact fun _ h => by cases h
  | (key, s) :: rest, hall, made, h => by
    rw [AllObey] at hall
    rw [fieldsOf] at h
    obtain ⟨f, hf, h⟩ := exists_of_bind_eq_ok h
    obtain ⟨fs, hfs, h⟩ := exists_of_bind_eq_ok h
    cases h
    exact List.forall_mem_cons.mpr ⟨obeys_fieldOfType hall.1 (obeys_type s hall.1) hf,
      obeys_fieldsOf rest hall.2 fs hfs⟩
end

theorem Obeys.field {s : Schema} (h : s.Obeys N) {name : String} {f : Field TypeExpr}
    (hf : s.field name = .ok f) : f.Obeys N True :=
  obeys_fieldOfType h (obeys_type s h) hf

theorem Obeys.base {s : Schema} (h : s.Obeys N) : s.base.Obeys N := by
  fun_induction Schema.base s with
  | case1 w o s ih =>
    rw [Obeys] at h
    exact ih h.1.2
  | case2 w o => exact h
  | case3 s => exact h

/-! ## Schemas that are read -/

theorem obeys_split {marks : List Mark} (h : ∀ m ∈ marks, m.Obeys N) :
    (∀ m ∈ (Mark.split marks).1, m.Obeys N) ∧ ∀ m ∈ (Mark.split marks).2, m.Obeys N := by
  rw [Mark.split, List.partition_eq_filter_filter]
  exact ⟨fun m hm => h m (List.mem_filter.mp hm).1, fun m hm => h m (List.mem_filter.mp hm).1⟩

theorem Obeys.readFrom {s : Schema} (h : s.Obeys N) {f : Field TypeExpr} (hf : f.Obeys N True) :
    (s.readFrom f).Obeys N := by
  have horigin : ∀ g, some f = some g → g.Obeys N True := fun g hg => Option.some.inj hg ▸ hf
  cases s with
  | wrapped w inner o =>
    cases inner with
    | none =>
      rw [Obeys] at h
      rw [Schema.readFrom, Obeys]
      exact ⟨h.1, horigin⟩
    | some s =>
      rw [Obeys] at h
      rw [Schema.readFrom, Obeys]
      exact ⟨h.1, horigin⟩
  | text | other | object =>
    rw [Obeys] at h
    rw [Schema.readFrom, Obeys]
    exact ⟨h.1, horigin⟩

theorem Obeys.guardedBy {s : Schema} (h : s.Obeys N) {checks : List Mark}
    (hchecks : ∀ m ∈ checks, m.Obeys N) :
    (if checks.isEmpty then s else s.checked checks).Obeys N := by
  split
  · exact h
  · rw [checked, wrap, Obeys]
    exact ⟨⟨hchecks, h⟩, fun _ h => by cases h⟩

section Reading
variable {objectOf : String → Option Schema} (hobject : ∀ name s, objectOf name = some s → s.Obeys N)
include hobject

theorem obeys_ofBase {type : TypeExpr} (ht : type.Obeys N True) {marks : List Mark}
    (hm : ∀ m ∈ marks, m.Obeys N) (description : Option String) :
    (ofBase objectOf type marks description).Obeys N := by
  have hleaf : Leaf.Obeys N { type := some type, marks, description } :=
    ⟨fun a ha => Option.some.inj ha ▸ ht, hm⟩
  unfold ofBase
  split
  · rw [Obeys]
    exact ⟨hleaf, fun _ h => by cases h⟩
  · split
    · rename_i heq
      have hobj := hobject _ _ heq
      split
      · split
        · exact hobj
        · rw [obeys_object] at hobj ⊢
          exact hobj
      · exact hobj
    · rw [Obeys]
      exact ⟨hleaf, fun _ h => by cases h⟩
  · rw [Obeys]
    exact ⟨hleaf, fun _ h => by cases h⟩

theorem obeys_ofMarked {type : TypeExpr} (ht : type.Obeys N True) {marks : List Mark}
    (hm : ∀ m ∈ marks, m.Obeys N) (description : Option String) :
    (ofMarked objectOf type marks description).Obeys N := by
  obtain ⟨hbase, hown⟩ := ht.unmarked
  have hsplit := obeys_split hown
  have hwhole := obeys_ofBase hobject hbase (List.forall_mem_append.mpr ⟨hm, hsplit.2⟩) description
  exact hwhole.guardedBy hsplit.1

theorem obeys_ofField {f : Field TypeExpr} (hf : f.Obeys N False) : (ofField objectOf f).Obeys N := by
  have hsplit := obeys_split hf.marks
  have hguarded : ∀ a : TypeExpr, a.Obeys N True → (if (Mark.split f.marks).1.isEmpty then
      ofMarked objectOf a (Mark.split f.marks).2 f.facts.description
      else checked (ofMarked objectOf a (Mark.split f.marks).2 f.facts.description)
        (Mark.split f.marks).1).Obeys N :=
    fun a ha => (obeys_ofMarked hobject ha hsplit.2 _).guardedBy hsplit.1
  rw [ofField]
  dsimp only
  refine Obeys.readFrom ?_ hf.mono
  by_cases hnull : f.facts.fallback.isNull = true
  · rw [if_pos hnull, if_pos hnull, optional, wrap, Obeys]
    exact ⟨⟨trivial, hguarded _ hf.type.mono.withoutNone⟩, fun _ h => by cases h⟩
  · rw [if_neg hnull, if_neg hnull]
    split
    · exact hguarded _ hf.type.mono
    · rw [withDefault, wrap, Obeys]
      exact ⟨⟨hf.facts.fallback, hguarded _ hf.type.mono⟩, fun _ h => by cases h⟩

theorem obeys_ofRecord {r : Record TypeExpr} (hr : r.Obeys N False) :
    (ofRecord objectOf r).Obeys N := by
  rw [ofRecord, ofFields, obeys_object]
  refine ⟨hr.config, fun p hp => ?_, fun _ h => by cases h⟩
  obtain ⟨f, hf, rfl⟩ := List.mem_map.mp
    ((Entries.mem_of_mem_override hp).resolve_left List.not_mem_nil)
  exact obeys_ofField hobject (hr.fields f hf)

end Reading

theorem obeys_objectOf {c : Catalog} (hc : c.Obeys N) (seen : List String) (name : String) (s : Schema)
    (h : objectOf c seen name = some s) : s.Obeys N := by
  induction hk : (c.unseen seen).length using Nat.strongRecOn generalizing seen name s with
  | ind k ih =>
    cases ho : c.open? seen name with
    | none =>
      rw [objectOf_of_seen ho] at h
      cases h
    | some r =>
      rw [objectOf_of_open? ho] at h
      cases h
      have hlt := Catalog.length_unseen_lt ho
      have hr : r ∈ c.models := by
        rw [Catalog.open?] at ho
        split at ho
        · cases ho
        · exact List.mem_of_find?_eq_some ho
      exact obeys_ofRecord (fun inside t ht => ih _ (hk ▸ hlt) (name :: seen) inside t ht rfl)
        (hc.models r hr)

theorem obeys_ofSource {c : Catalog} (hc : c.Obeys N) {role : String} {source : Source}
    (hs : source.Obeys N) {s : Schema} (h : ofSource c role source = .ok s) : s.Obeys N := by
  unfold ofSource at h
  split at h
  · cases h
    exact hs
  · cases h
    unfold ofModel
    cases ho : objectOf c [] _ with
    | none =>
      rw [Option.getD_none, Obeys]
      exact ⟨⟨fun a ha => Option.some.inj ha ▸ trivial, fun _ h => by cases h⟩, fun _ h => by cases h⟩
    | some s => exact obeys_objectOf hc [] _ s ho
  · split at h
    · cases h
      exact obeys_ofMarked (obeys_objectOf hc []) hs (fun _ h => by cases h) none
    · cases h
    · cases h
    · cases h
  · cases h

/-! ## Objects that are split -/

theorem Obeys.partition {s : Schema} (h : s.Obeys N) {template : String} {parts : Partition}
    (hp : s.partition template = .ok parts) : parts.path.Obeys N ∧ parts.rest.Obeys N := by
  obtain ⟨path, rest⟩ := parts
  obtain ⟨head, fields, o, rfl, -, hpath, hrest⟩ := partition_eq_ok hp
  rw [obeys_object] at h
  rw [without] at hrest
  refine ⟨?_, ?_⟩
  · rw [hpath, ofFields, obeys_object]
    refine ⟨Json.obeys_nil, fun p hp => ?_, fun _ h => by cases h⟩
    exact h.2.1 _ (Entries.mem_of_get? (get?_of_mem_pickFields hp))
  · split at hrest
    · cases hrest
      exact obeys_object.mpr ⟨h.1, fun p hp => h.2.1 p (List.mem_filter.mp hp).1, h.2.2⟩
    · cases hrest
      exact obeys_object.mpr h

end Schema

/-! ## Catalogs after procedures -/

namespace Catalog
variable {c : Catalog}

theorem eq_ok_of_toOption {ε α : Type} {x : Except ε α} {a : α} (h : x.toOption = some a) :
    x = .ok a := by
  cases x <;> cases h
  rfl

theorem Obeys.heedSource (hN : N.first = 0) (hc : c.Obeys N) {source : Source} (hs : source.Obeys N) :
    (c.heedSource source).Obeys N := by
  cases source with
  | type a => exact hc.heed hs fun _ => hN
  | schema | value => exact hc

theorem Obeys.heededBy (hN : N.first = 0) (hc : c.Obeys N) {s : Schema} (hs : s.Obeys N) :
    (s.heededBy c).Obeys N := by
  unfold Schema.heededBy
  split
  · rename_i a ha
    exact hc.heed (Schema.obeys_type s.base hs.base a ha) fun _ => hN
  · exact hc

theorem Obeys.heedInput (hN : N.first = 0) (hc : c.Obeys N) {input : Source} (hi : input.Obeys N)
    (template : String) : (c.heedInput input template).Obeys N := by
  unfold Catalog.heedInput
  dsimp only
  split
  · rename_i parts heq
    obtain ⟨s, hs, hparts⟩ := Option.bind_eq_some_iff.mp heq
    have hobeys := Schema.obeys_ofSource hc hi (eq_ok_of_toOption hs)
    exact (hc.heedSource hN hi).heededBy hN (hobeys.partition (eq_ok_of_toOption hparts)).2
  · exact hc.heedSource hN hi

theorem obeys_envelope {s : Schema} (hs : s.Obeys N) {r : Record TypeExpr}
    (h : s.envelope = .ok r) : r.Obeys N True := by
  unfold Schema.envelope at h
  obtain ⟨data, hdata, h⟩ := exists_of_bind_eq_ok h
  refine Record.obeys_assemble Json.obeys_nil ?_ h
  refine List.forall_mem_cons.mpr ⟨?_, List.forall_mem_singleton.mpr (hs.field hdata)⟩
  refine ⟨?_, fun _ h => (by cases h), fun _ h => (by cases h), fun _ h => (by cases h),
    fun _ h => (by cases h)⟩
  exact List.forall_mem_singleton.mpr (N.value_of_data _ trivial)

theorem Obeys.heedOutput (hN : N.first = 0) (hc : c.Obeys N) {output : Source}
    (ho : output.Obeys N) : (c.heedOutput output).Obeys N := by
  unfold Catalog.heedOutput
  dsimp only
  split
  · rename_i envelope heq
    obtain ⟨s, hs, henvelope⟩ := exists_of_bind_eq_ok heq
    have hrecord := obeys_envelope (Schema.obeys_ofSource hc ho hs) henvelope
    exact (hc.heedSource hN ho).heed (TypeExpr.obeys_record.mpr ⟨trivial, hrecord⟩) fun _ => hN
  · exact hc.heedSource hN ho

end Catalog

namespace Procedure
variable {c : Catalog} {p : Procedure}

structure Obeys (N : Norm) (p : Procedure) : Prop where
  input : ∀ s, p.input = some s → s.Obeys N
  output : p.output.Obeys N

theorem Obeys.heedInput (hN : N.first = 0) (hp : p.Obeys N) (hc : c.Obeys N) :
    (p.heedInput c).Obeys N := by
  unfold Procedure.heedInput
  split
  · rename_i input hi
    split
    · exact hc.heedInput hN (hp.input _ hi) _
    · exact hc.heedSource hN (hp.input _ hi)
  · exact hc

theorem Obeys.heed (hN : N.first = 0) (hp : p.Obeys N) (hc : c.Obeys N) : (p.heed c).Obeys N :=
  (hp.heedInput hN hc).heedOutput hN hp.output

end Procedure

end Procedoc
