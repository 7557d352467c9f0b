import Procedoc.Proofs.Rendering.Sketch

/-! # Types in which nothing reads as a reference

What marks and unions leave to a shape, the outline of a type has from its parts (`Shape.Stays`).

Texts, values and entries that are written by hand may read as a reference to a definition.  Where
none in a type does, none in its outline does (`Shaping.inert_outline`). -/
namespace Procedoc
set_option autoImplicit false

/-! ## What outlines have from their parts -/

/-- Whether a property of shapes stays with a shape that gets marks of a kind, or that goes into a
union with others that have it. -/
structure Shape.Stays (P : Shape → Prop) (Q : Mark → Prop) : Prop where
  guarded : ∀ s, P s → P (.guarded s)
  replaced : ∀ s bare, P (.replaced s bare)
  concealed : P .concealed
  bound : ∀ s b, P s → Q (.bound b) → P (s.foldedBound b)
  field : ∀ s facts bounds, P s → Q (.field facts bounds) →
    P ((bounds.foldl (fun s b => s.foldedBound b) s).note facts.notes)
  defaulted : ∀ s facts bounds, P s → Q (.field facts bounds) → P (.defaulted s facts.fallback)
  nullable : ∀ s, P s → P (.nullable s)
  union : ∀ shapes, (∀ s ∈ shapes, P s) → P (.union shapes)

namespace Shape.Stays
variable {P : Shape → Prop} {Q : Mark → Prop}

theorem outlineMark (h : Stays P Q) {bare : Except Stop Shape} {so so' : Option Shape}
    (hs : ∀ s, so = some s → P s) {m : Mark} (hm : Q m)
    (ho : Shaping.outlineMark bare so m = .ok so') : ∀ s, so' = some s → P s := by
  rintro s rfl
  cases so with
  | none =>
    cases m with
    | check moment =>
      cases moment with
      | «instead» =>
        cases ho
        exact h.concealed
      | _ => cases ho
    | _ => cases ho
  | some t =>
    have ht := hs t rfl
    cases m with
    | check moment =>
      cases moment with
      | «instead» =>
        obtain ⟨b, -, ho⟩ := exists_of_bind_eq_ok ho
        cases b with
        | none =>
          cases ho
          exact h.concealed
        | some b =>
          cases ho
          exact h.replaced t b
      | _ =>
        cases ho
        exact h.guarded t ht
    | bound b =>
      cases ho
      exact h.bound t b ht hm
    | field facts bounds =>
      cases ho
      exact h.field t facts bounds ht hm

theorem foldlM_outlineMark (h : Stays P Q) {bare : Except Stop Shape} {marks : List Mark}
    (hm : ∀ m ∈ marks, Q m) {so so' : Option Shape} (hs : ∀ s, so = some s → P s)
    (ho : marks.foldlM (Shaping.outlineMark bare) so = .ok so') : ∀ s, so' = some s → P s := by
  induction marks generalizing so with
  | nil =>
    cases ho
    exact hs
  | cons m rest ih =>
    rw [List.foldlM_cons] at ho
    obtain ⟨next, hnext, hrest⟩ := exists_of_bind_eq_ok ho
    exact ih (fun m' hm' => hm m' (List.mem_cons_of_mem _ hm'))
      (h.outlineMark hs (hm m (List.mem_cons_self ..)) hnext) hrest

theorem outlineMarks (h : Stays P Q) {bare : Except Stop Shape}
    (hbare : ∀ s, bare = .ok s → P s) {marks : List Mark} (hm : ∀ m ∈ marks, Q m) {s : Shape}
    (ho : Shaping.outlineMarks bare marks = .ok s) : P s := by
  rw [Shaping.outlineMarks] at ho
  obtain ⟨start, hstart, ho⟩ := exists_of_bind_eq_ok ho
  obtain ⟨so, hso, ho⟩ := exists_of_bind_eq_ok ho
  have hattempted : ∀ t, start = some t → P t := by
    rintro t rfl
    cases bare with
    | ok t' =>
      cases hstart
      exact hbare t rfl
    | error stop => cases stop <;> cases hstart
  cases so with
  | none => cases ho
  | some t =>
    cases ho
    exact h.foldlM_outlineMark hm hattempted hso s rfl

theorem withDefaults (h : Stays P Q) {marks : List Mark} (hm : ∀ m ∈ marks, Q m) {s : Shape}
    (hs : P s) : P (Shaping.withDefaults marks s) := by
  have hf : ∀ f ∈ Field.fallbacksOf marks, ∀ t, P t → P (.defaulted t f) := by
    intro f hf t ht
    obtain ⟨m, hmem, heq⟩ := List.mem_filterMap.mp hf
    cases m with
    | field facts bounds =>
      cases heq
      exact h.defaulted t facts bounds ht (hm _ hmem)
    | _ => cases heq
  rw [Shaping.withDefaults]
  generalize Field.fallbacksOf marks = fallbacks at hf
  induction fallbacks generalizing s with
  | nil => exact hs
  | cons f rest ih =>
    refine ih ?_ fun g hg => hf g (List.mem_cons_of_mem _ hg)
    dsimp only
    split
    · exact hs
    · exact hf f (List.mem_cons_self ..) s hs

theorem unionOf (h : Stays P Q) {members : List (TypeExpr × Shape)} (hs : ∀ m ∈ members, P m.2) :
    P (Shaping.unionOf members) := by
  have hbase : ∀ s ∈ (members.filter fun m => !m.1.isNone).map Prod.snd, P s := by
    intro s hmem
    obtain ⟨m, hm, rfl⟩ := List.mem_map.mp hmem
    exact hs m (List.mem_filter.mp hm).1
  rw [Shaping.unionOf_eq]
  have hinner : P (Shaping.joined ((members.filter fun m => !m.1.isNone).map Prod.snd)) := by
    unfold Shaping.joined
    split
    · rename_i s heq
      exact hbase s (heq ▸ List.mem_singleton_self _)
    · exact h.union _ hbase
  split
  · exact h.nullable _ hinner
  · exact hinner

end Shape.Stays

/-! ## Inert marks and types -/

/-- Whether nothing that a mark says reads as a reference. -/
def Mark.IsInert (c : Catalog) : Mark → Prop
  | .check _ => True
  | .bound b => Inert b.limit
  | .field facts bounds =>
    InertNotes facts.notes ∧ InertFallback c facts.fallback ∧ InertBounds bounds

namespace TypeExpr

mutual
/-- Whether nothing that is written in a type reads as a reference. -/
def IsInert (c : Catalog) : TypeExpr → Prop
  | plain _ | model _ | enumeration _ => True
  | literal values => ∀ v ∈ values, InertValue c v
  | container _ a => IsInert c a
  | tuple types | union _ types => AllInert c types
  | dict k v => IsInert c k ∧ IsInert c v
  | marked a marks => IsInert c a ∧ ∀ m ∈ marks, m.IsInert c
  | record _ => False

def AllInert (c : Catalog) : List TypeExpr → Prop
  | [] => True
  | a :: rest => IsInert c a ∧ AllInert c rest
end

end TypeExpr

/-! ## Inert shapes -/

namespace Shape
variable {c : Catalog}

theorem allInert_iff {shapes : List Shape} : AllInert c shapes ↔ ∀ s ∈ shapes, IsInert c s := by
  induction shapes with
  | nil => simp [AllInert]
  | cons s rest ih => simp [AllInert, ih]

mutual
theorem IsInert.folded : (s : Shape) → s.IsInert c → s.folded.IsInert c
  | container _ inner _, h | defaulted inner _, h | noted inner _, h => by
    rw [IsInert] at h
    rw [Shape.folded, IsInert]
    exact ⟨IsInert.folded inner h.1, h.2⟩
  | nullable inner, h | guarded inner, h | chained inner _, h => by
    rw [IsInert] at h
    rw [Shape.folded, IsInert]
    exact IsInert.folded inner h
  | tuple items _, h => by
    rw [IsInert] at h
    rw [Shape.folded, IsInert]
    exact ⟨AllInert.folded items h.1, h.2⟩
  | dict k v _, h => by
    rw [IsInert] at h
    rw [Shape.folded, IsInert]
    exact ⟨IsInert.folded k h.1, IsInert.folded v h.2.1, h.2.2⟩
  | union members, h => by
    rw [IsInert] at h
    rw [Shape.folded, IsInert]
    exact AllInert.folded members h
  | replaced _ _, _ | concealed, _ | reference _, _ | shared _, _ | record _ _, _
  | enumeration _ _, _ => by simp [Shape.folded, IsInert]
  | plain _ _, h | literal _, h => h

theorem AllInert.folded : (shapes : List Shape) → AllInert c shapes →
    AllInert c (foldedList shapes)
  | [], _ => trivial
  | s :: rest, h => by
    rw [AllInert] at h
    rw [foldedList, AllInert]
    exact ⟨IsInert.folded s h.1, AllInert.folded rest h.2⟩
end

end Shape

theorem Bound.kinds_put (bs : List Bound) (b : Bound) :
    (Bound.put bs b).map Bound.kind =
      if b.kind ∈ bs.map Bound.kind then bs.map Bound.kind else bs.map Bound.kind ++ [b.kind] := by
  induction bs with
  | nil => simp [Bound.put]
  | cons a rest ih =>
    rw [Bound.put]
    by_cases h : a.kind = b.kind
    · simp [h]
    · rw [if_neg h, List.map_cons, ih]
      by_cases hm : b.kind ∈ rest.map Bound.kind
      · simp [hm]
      · simp [hm, Ne.symm h]

theorem Bound.nodup_kinds_put {bs : List Bound} (h : (bs.map Bound.kind).Nodup) (b : Bound) :
    ((Bound.put bs b).map Bound.kind).Nodup := by
  rw [Bound.kinds_put]
  split
  · exact h
  · rename_i hm
    refine List.nodup_append.mpr ⟨h, List.nodup_singleton _, fun x hx y hy hxy => hm ?_⟩
    rwa [← List.mem_singleton.mp hy, ← hxy]

theorem inertBounds_put {bs : List Bound} (h : InertBounds bs) {b : Bound} (hb : Inert b.limit) :
    InertBounds (Bound.put bs b) := by
  induction bs with
  | nil =>
    intro a ha
    rw [Bound.put, List.mem_singleton] at ha
    rw [ha]
    exact hb
  | cons d rest ih =>
    rw [Bound.put]
    split
    · intro a ha
      rcases List.mem_cons.mp ha with rfl | ha
      · exact hb
      · exact h a (List.mem_cons_of_mem _ ha)
    · intro a ha
      rcases List.mem_cons.mp ha with rfl | ha
      · exact h a (List.mem_cons_self ..)
      · exact ih (fun a ha => h a (List.mem_cons_of_mem _ ha)) a ha

theorem overlay_override {e top : Entries Json} (he : Overlay e) (ht : Overlay top) :
    Overlay (Entries.override e top) := fun p hp =>
  (Entries.mem_of_mem_override hp).elim (he p) (ht p)

theorem inertNotes_merge {earlier later : Notes} (h : InertNotes earlier) (h' : InertNotes later) :
    InertNotes (earlier.merge later) := by
  refine ⟨overlay_override h.1 h'.1, ?_⟩
  obtain ⟨u, x⟩ := earlier
  obtain ⟨u', x'⟩ := later
  have ha := h.2
  have ha' := h'.2
  rcases x with _ | (e | _) <;> rcases x' with _ | (e' | _) <;>
    first
    | exact ha'
    | exact ha
    | exact overlay_override ha ha'

namespace Shape
variable {c : Catalog}

theorem IsInert.note {s : Shape} (h : s.IsInert c) {notes : Notes} (hn : InertNotes notes) :
    (s.note notes).IsInert c := by
  have hf : ∀ t : Shape, t.IsInert c → (if notes.isEmpty then t else noted t notes).IsInert c := by
    intro t ht
    split
    · exact ht
    · rw [IsInert]
      exact ⟨ht, hn⟩
  cases s with
  | noted inner before =>
    rw [IsInert] at h
    rw [Shape.note, IsInert]
    exact ⟨h.1, inertNotes_merge h.2 hn⟩
  | _ => exact hf _ h

theorem besideKeyword_ne (kind : BoundKind) (isAroundList : Bool) :
    kind.besideKeyword isAroundList ≠ "$ref" := by
  cases kind <;> cases isAroundList <;> decide

theorem IsInert.beside {s : Shape} (h : s.IsInert c) {b : Bound} (hb : Inert b.limit) :
    (s.beside b).IsInert c := by
  rw [Shape.beside]
  split
  · rwa [IsInert]
  · rw [IsInert, IsInert]
    refine ⟨h, fun p hp => ?_, List.forall_mem_nil _⟩
    rw [List.mem_singleton.mp hp]
    exact ⟨besideKeyword_ne _ _, hb⟩

theorem IsInert.putBound {s : Shape} (h : s.IsInert c) {b : Bound} (hb : Inert b.limit) :
    (s.putBound b).IsInert c := by
  induction s using Shape.putBound.induct with
  | case1 p bs =>
    rw [IsInert] at h
    rw [Shape.putBound, IsInert]
    exact ⟨inertBounds_put h.1 hb, Bound.nodup_kinds_put h.2 b⟩
  | case2 k item bs =>
    rw [IsInert] at h
    rw [Shape.putBound, IsInert]
    exact ⟨h.1, inertBounds_put h.2 hb⟩
  | case3 items bs =>
    rw [IsInert] at h
    rw [Shape.putBound, IsInert]
    exact ⟨h.1, inertBounds_put h.2 hb⟩
  | case4 k v bs =>
    rw [IsInert] at h
    rw [Shape.putBound, IsInert]
    exact ⟨h.1, h.2.1, inertBounds_put h.2.2 hb⟩
  | case5 inner notes ih =>
    rw [IsInert] at h
    rw [Shape.putBound, IsInert]
    exact ⟨ih h.1, h.2⟩
  | case6 s => simp_all [Shape.putBound]

theorem IsInert.foldedBound {s : Shape} (h : s.IsInert c) {b : Bound} (hb : Inert b.limit) :
    (s.foldedBound b).IsInert c := by
  rw [Shape.foldedBound]
  refine IsInert.folded _ ?_
  fun_induction Shape.bound standIn b s with
  | case1 inner ih =>
    rw [IsInert] at h ⊢
    exact ih h
  | case2 inner notes ih =>
    rw [IsInert, IsInert] at h
    rw [IsInert, IsInert]
    exact ⟨ih h.1, h.2⟩
  | case3 s hn hnn key ht d hd =>
    cases hd
    refine IsInert.beside ?_ hb
    rw [underKey, IsInert]
    trivial
  | case4 s hn hnn key ht hd => cases hd
  | case5 s hn hnn ht hg => exact h.putBound hb
  | case6 s hn hnn ht hg => exact h.beside hb

theorem IsInert.foldedBounds {s : Shape} (h : s.IsInert c) {bounds : List Bound}
    (hb : InertBounds bounds) : (bounds.foldl (fun s b => s.foldedBound b) s).IsInert c := by
  induction bounds generalizing s with
  | nil => exact h
  | cons b rest ih =>
    exact ih (h.foldedBound (hb b (List.mem_cons_self ..)))
      fun a ha => hb a (List.mem_cons_of_mem _ ha)

theorem stays_isInert (c : Catalog) : Stays (IsInert c) (Mark.IsInert c) where
  guarded s h := by rwa [IsInert]
  replaced s bare := by
    rw [IsInert]
    trivial
  concealed := by
    rw [IsInert]
    trivial
  bound s b h hb := h.foldedBound hb
  field s facts bounds h hm := (h.foldedBounds hm.2.2).note hm.1
  defaulted s facts bounds h hm := by
    rw [IsInert]
    exact ⟨h, hm.2.1⟩
  nullable s h := by rwa [IsInert]
  union shapes h := by
    rw [IsInert]
    exact allInert_iff.mpr h

end Shape

/-! ## Inert outlines -/

namespace Shaping
variable {c : Catalog}

mutual
theorem inert_outline (sealedAllowed : Bool) : (a : TypeExpr) → a.IsInert c → ∀ s,
    outline sealedAllowed a = .ok s → s.IsInert c
  | .plain p, _, s, h => by
    rw [outline] at h
    split at h
    · cases h
    · cases h
      rw [Shape.IsInert]
      exact ⟨nofun, .nil⟩
  | .model _, _, s, h | .enumeration _, _, s, h => by
    rw [outline] at h
    cases h
    rw [Shape.IsInert]
    trivial
  | .literal values, ha, s, h => by
    rw [outline] at h
    split at h
    · cases h
    · cases h
      rwa [TypeExpr.IsInert] at ha
  | .container k item, ha, s, h => by
    rw [outline] at h
    rw [TypeExpr.IsInert] at ha
    obtain ⟨t, ht, h⟩ := exists_of_bind_eq_ok h
    cases h
    rw [Shape.IsInert]
    exact ⟨inert_outline sealedAllowed item ha t ht, nofun⟩
  | .tuple items, ha, s, h => by
    rw [outline] at h
    rw [TypeExpr.IsInert] at ha
    obtain ⟨ts, ht, h⟩ := exists_of_bind_eq_ok h
    cases h
    rw [Shape.IsInert]
    exact ⟨Shape.allInert_iff.mpr (inert_outlines sealedAllowed items ha ts ht), nofun⟩
  | .dict k v, ha, s, h => by
    rw [outline] at h
    rw [TypeExpr.IsInert] at ha
    obtain ⟨t, ht, h⟩ := exists_of_bind_eq_ok h
    obtain ⟨t', ht', h⟩ := exists_of_bind_eq_ok h
    cases h
    rw [Shape.IsInert]
    exact ⟨inert_outline sealedAllowed k ha.1 t ht, inert_outline sealedAllowed v ha.2 t' ht', nofun⟩
  | .union _ members, ha, s, h => by
    rw [outline] at h
    rw [TypeExpr.IsInert] at ha
    obtain ⟨ts, ht, h⟩ := exists_of_bind_eq_ok h
    cases h
    refine (Shape.stays_isInert c).unionOf fun m hm => ?_
    exact inert_outlines sealedAllowed members ha ts ht m.2 (List.of_mem_zip hm).2
  | .marked base marks, ha, s, h => by
    rw [outline] at h
    rw [TypeExpr.IsInert] at ha
    obtain ⟨t, ht, h⟩ := exists_of_bind_eq_ok h
    cases h
    have hstays := Shape.stays_isInert c
    exact hstays.withDefaults ha.2
      (hstays.outlineMarks (inert_outline sealedAllowed base ha.1) ha.2 ht)
  | .record _, _, s, h => by
    rw [outline] at h
    cases h

theorem inert_outlines (sealedAllowed : Bool) : (types : List TypeExpr) →
    TypeExpr.AllInert c types → ∀ shapes, outlines sealedAllowed types = .ok shapes →
      ∀ s ∈ shapes, s.IsInert c
  | [], _, shapes, h => by
    rw [outlines] at h
    cases h
    exact nofun
  | a :: rest, ha, shapes, h => by
    rw [outlines] at h
    rw [TypeExpr.AllInert] at ha
    obtain ⟨t, ht, h⟩ := exists_of_bind_eq_ok h
    obtain ⟨ts, hts, h⟩ := exists_of_bind_eq_ok h
    cases h
    intro s hs
    rcases List.mem_cons.mp hs with rfl | hs
    · exact inert_outline sealedAllowed a ha.1 s ht
    · exact inert_outlines sealedAllowed rest ha.2 ts hts s hs
end

end Shaping
end Procedoc
