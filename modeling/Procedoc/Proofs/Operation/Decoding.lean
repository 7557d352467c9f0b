import Procedoc.Proofs.Operation.Texts
import Procedoc.Proofs.Rendering.Flat

/-! # Defaults in types of texts

All that can be in the way of the schema of a type of texts are defaults whose octets do not encode a
text: a type whose defaults decode has a schema (`Shaping.isSketched_outline`), and one that has a
schema has defaults that decode (`Shaping.decodes_of_sketch`).  What decodes in the usual form does so
in any form (`Fallback.Decodes.of_usual`). -/
namespace Procedoc
set_option autoImplicit false
open Writing (outcome)

/-! ## Values that decode -/

/-- Whether data, if there is any, is found in spite of what octets encode. -/
def Readable {α : Type} (x : Except Fault α) : Prop := x ≠ .error .undecodableOctets

/-- Whether data in another form is found where it is in the usual form, and else is missing for the
same reason, if octets that encode no text are none. -/
def FollowsUsual {α β : Type} (usual : Except Fault α) (other : Except Fault β) : Prop :=
  usual = .error .undecodableOctets ∨ (∃ a b, usual = .ok a ∧ other = .ok b) ∨
    ∃ f, f ≠ .undecodableOctets ∧ usual = .error f ∧ other = .error f

namespace FollowsUsual
variable {α α' β β' : Type}

theorem ok (a : α) (b : β) : FollowsUsual (.ok a) (.ok b) := .inr (.inl ⟨a, b, rfl, rfl⟩)

theorem refl (x : Except Fault α) : FollowsUsual x x := by
  cases x with
  | ok a => exact .ok a a
  | error f =>
    by_cases hf : f = .undecodableOctets
    · exact .inl (congrArg Except.error hf)
    · exact .inr (.inr ⟨f, hf, rfl, rfl⟩)

theorem bind {x : Except Fault α} {y : Except Fault β} (h : FollowsUsual x y)
    {f : α → Except Fault α'} {g : β → Except Fault β'} (hf : ∀ a b, FollowsUsual (f a) (g b)) :
    FollowsUsual (x >>= f) (y >>= g) := by
  rcases h with rfl | ⟨a, b, rfl, rfl⟩ | ⟨e, he, rfl, rfl⟩
  · exact .inl rfl
  · exact hf a b
  · exact .inr (.inr ⟨e, he, rfl, rfl⟩)

theorem readable {x : Except Fault α} {y : Except Fault β} (h : FollowsUsual x y)
    (hx : Readable x) : Readable y := by
  rcases h with rfl | ⟨a, b, -, rfl⟩ | ⟨e, he, -, rfl⟩
  · exact absurd rfl hx
  · exact nofun
  · exact fun heq => he (Except.error.inj heq)

end FollowsUsual

namespace Catalog
variable {c : Catalog}

theorem followsUsual_write (form : OctetForm) (bytes : List UInt8) :
    FollowsUsual (OctetForm.text.write bytes) (form.write bytes) := by
  cases form with
  | text => exact .refl _
  | base64 | hex =>
    rw [OctetForm.write, OctetForm.write]
    split
    · exact .ok _ _
    · exact .inl rfl

mutual
theorem followsUsual_dataWith (recordData : String → Entries Json → Except Fault Json)
    (form : DataForm) : (v : Value) →
      FollowsUsual (dataWith c recordData {} v) (dataWith c recordData form v)
  | .plain j => by
    rw [dataWith, dataWith]
    exact .refl _
  | .many _ items => by
    rw [dataWith, dataWith]
    exact (followsUsual_dataOfList recordData form items).bind fun a b => .ok _ _
  | .dict entries => by
    rw [dataWith, dataWith]
    exact (followsUsual_dataOfEntries recordData form entries).bind fun a b => .ok _ _
  | .member _ _ => by
    rw [dataWith, dataWith]
    exact .refl _
  | .octets bytes => by
    rw [dataWith, dataWith]
    exact followsUsual_write form.octets bytes
  | .date day => by
    rw [dataWith, dataWith]
    exact .ok _ _
  | .record model given => by
    rw [dataWith, dataWith]
    exact .refl _
  | .sealed => by
    rw [dataWith, dataWith]
    exact .refl _

theorem followsUsual_dataOfList (recordData : String → Entries Json → Except Fault Json)
    (form : DataForm) : (values : List Value) →
      FollowsUsual (dataOfList c recordData {} values) (dataOfList c recordData form values)
  | [] => by
    rw [dataOfList, dataOfList]
    exact .refl _
  | v :: rest => by
    rw [dataOfList, dataOfList]
    exact (followsUsual_dataWith recordData form v).bind fun a b =>
      (followsUsual_dataOfList recordData form rest).bind fun as bs => .ok _ _

theorem followsUsual_dataOfEntries (recordData : String → Entries Json → Except Fault Json)
    (form : DataForm) : (entries : List (String × Value)) →
      FollowsUsual (dataOfEntries c recordData {} entries) (dataOfEntries c recordData form entries)
  | [] => by
    rw [dataOfEntries, dataOfEntries]
    exact .refl _
  | (k, v) :: rest => by
    rw [dataOfEntries, dataOfEntries]
    exact (followsUsual_dataWith recordData form v).bind fun a b =>
      (followsUsual_dataOfEntries recordData form rest).bind fun as bs => .ok _ _
end

end Catalog

/-- Whether the default that a fallback gives decodes in a form. -/
def Fallback.Decodes (c : Catalog) (form : DataForm) (f : Fallback) : Prop :=
  ∀ v, f.value? = some v → Readable (c.dataIn form v)

theorem Fallback.Decodes.of_usual {c : Catalog} {f : Fallback} (h : f.Decodes c {})
    (form : DataForm) : f.Decodes c form := fun v hv =>
  (Catalog.followsUsual_dataWith _ form v).readable (h v hv)

/-- Whether the defaults that a mark gives decode in a form. -/
def Mark.Decodes (c : Catalog) (form : DataForm) : Mark → Prop
  | .field facts _ => facts.fallback.Decodes c form
  | _ => True

theorem Mark.Decodes.of_usual {c : Catalog} {m : Mark} (h : m.Decodes c {}) (form : DataForm) :
    m.Decodes c form := by
  cases m with
  | field facts bounds => exact Fallback.Decodes.of_usual h form
  | _ => trivial

theorem withDefault_isOk_iff {c : Catalog} {config : Config} {f : Fallback} {e : Entries Json} :
    (∃ e', (withDefault c config f e).outcome = .ok e') ↔ f.Decodes c (Config.dataForm config) := by
  cases hv : f.value? with
  | none =>
    have hdecodes : f.Decodes c (Config.dataForm config) := by
      intro v h
      rw [hv] at h
      cases h
    refine ⟨fun _ => hdecodes, fun _ => ⟨e, ?_⟩⟩
    rw [withDefault, hv]
    rfl
  | some v =>
    have hdecodes : f.Decodes c (Config.dataForm config) ↔
        Readable (c.dataIn (Config.dataForm config) v) := by
      refine ⟨fun h => h v hv, fun h v' hv' => ?_⟩
      rw [hv, Option.some.injEq] at hv'
      rwa [← hv']
    rw [hdecodes, Readable, outcome_withDefault_some hv]
    cases hd : c.dataIn (Config.dataForm config) v with
    | ok j => exact ⟨fun _ h => (by cases h), fun _ => ⟨_, rfl⟩⟩
    | error fault =>
      by_cases hf : fault = .undecodableOctets
      · subst hf
        exact ⟨by rintro ⟨_, ⟨⟩⟩, fun h => absurd rfl h⟩
      · refine ⟨fun _ h => hf (Except.error.inj h), fun _ => ⟨e, ?_⟩⟩
        cases fault <;> first | rfl | exact absurd rfl hf

/-! ## Shapes that have a sketch -/

namespace Shape
variable {c : Catalog} {config : Config} {s : Shape}

/-- Whether a shape has a sketch, whatever the labels are. -/
def IsSketched (c : Catalog) (config : Config) (s : Shape) : Prop :=
  ∀ label, ∃ e, s.sketch c label config = .ok e

theorem isSketched_guarded : (guarded s).IsSketched c config ↔ s.IsSketched c config :=
  forall_congr' fun label => by rw [sketch]

theorem isSketched_chained {pattern : Json} :
    (chained s pattern).IsSketched c config ↔ s.IsSketched c config :=
  forall_congr' fun label => by rw [sketch]

/-- What is put around a sketch leaves one. -/
theorem exists_bind_pure_iff {ε α β : Type} {x : Except ε α} {f : α → β} :
    (∃ b, (do return f (← x)) = Except.ok (ε := ε) b) ↔ ∃ a, x = .ok a := by
  cases x with
  | ok a => exact ⟨fun _ => ⟨a, rfl⟩, fun _ => ⟨f a, rfl⟩⟩
  | error e => exact ⟨nofun, nofun⟩

theorem isSketched_noted {notes : Notes} :
    (noted s notes).IsSketched c config ↔ s.IsSketched c config :=
  forall_congr' fun label => by
    rw [sketch]
    exact exists_bind_pure_iff

theorem isSketched_nullable : (nullable s).IsSketched c config ↔ s.IsSketched c config :=
  forall_congr' fun label => by
    rw [sketch]
    exact exists_bind_pure_iff

theorem exists_sketch_defaulted_iff {f : Fallback} {label : Key → String} :
    (∃ e, (defaulted s f).sketch c label config = .ok e) ↔
      (∃ e, s.sketch c label config = .ok e) ∧ f.Decodes c (Config.dataForm config) := by
  rw [sketch]
  constructor
  · rintro ⟨e', he'⟩
    obtain ⟨e, he, hdefault⟩ := exists_of_bind_eq_ok he'
    exact ⟨⟨e, he⟩, withDefault_isOk_iff.mp ⟨e', hdefault⟩⟩
  · rintro ⟨⟨e, he⟩, hf⟩
    rw [he]
    exact withDefault_isOk_iff.mpr hf

theorem isSketched_defaulted {f : Fallback} : (defaulted s f).IsSketched c config ↔
    s.IsSketched c config ∧ f.Decodes c (Config.dataForm config) :=
  (forall_congr' fun _ => exists_sketch_defaulted_iff).trans (forall_and_right _ _)

theorem isSketched_union {shapes : List Shape} (h : ∀ s ∈ shapes, s.IsSketched c config) :
    (union shapes).IsSketched c config := by
  intro label
  obtain ⟨es, hes⟩ : ∃ es, sketchSome c label config shapes = .ok es := by
    induction shapes with
    | nil => exact ⟨[], by rw [sketchSome]⟩
    | cons s rest ih =>
      obtain ⟨e, he⟩ := h s (List.mem_cons_self ..) label
      obtain ⟨es, hes⟩ := ih fun s hs => h s (List.mem_cons_of_mem _ hs)
      exact ⟨[e] ++ es, by rw [sketchSome, he, hes]; rfl⟩
  exact ⟨unionEntries es, by rw [sketch, hes]; rfl⟩

theorem IsSketched.note (h : s.IsSketched c config) (notes : Notes) :
    (s.note notes).IsSketched c config := by
  have hf : ∀ t : Shape, t.IsSketched c config →
      (if notes.isEmpty then t else noted t notes).IsSketched c config := by
    intro t ht
    split
    · exact ht
    · exact isSketched_noted.mpr ht
  cases s with
  | noted inner before => exact isSketched_noted.mpr (isSketched_noted.mp h)
  | _ => exact hf _ h

theorem IsSketched.beside (h : s.IsSketched c config) (b : Bound) :
    (s.beside b).IsSketched c config := by
  rw [Shape.beside]
  split
  · exact isSketched_chained.mpr h
  · exact isSketched_noted.mpr (isSketched_guarded.mpr h)

theorem IsSketched.putBound (h : s.IsSketched c config) (b : Bound) :
    (s.putBound b).IsSketched c config := by
  induction s using Shape.putBound.induct with
  | case1 p bs =>
    intro label
    obtain ⟨e, he⟩ := h label
    rw [sketch] at he
    rw [Shape.putBound, sketch]
    cases p with
    | callable | sealed => cases he
    | _ => exact ⟨_, rfl⟩
  | case2 k item bs =>
    refine fun label => ?_
    obtain ⟨e, he⟩ := h label
    rw [sketch] at he
    rw [Shape.putBound, sketch]
    exact exists_bind_pure_iff.mpr (exists_bind_pure_iff.mp ⟨e, he⟩)
  | case3 items bs =>
    refine fun label => ?_
    obtain ⟨e, he⟩ := h label
    rw [sketch] at he
    rw [Shape.putBound, sketch]
    exact exists_bind_pure_iff.mpr (exists_bind_pure_iff.mp ⟨e, he⟩)
  | case4 k v bs =>
    refine fun label => ?_
    obtain ⟨e, he⟩ := h label
    rw [sketch] at he
    rw [Shape.putBound, sketch]
    obtain ⟨key, hkey, he⟩ := exists_of_bind_eq_ok he
    obtain ⟨value, hvalue, he⟩ := exists_of_bind_eq_ok he
    rw [hkey]
    change ∃ e, (do
      let shown := mappingOf key (← sketch c label config v)
      return Entries.override shown _) = Except.ok e
    rw [hvalue]
    exact ⟨_, rfl⟩
  | case5 inner notes ih => exact isSketched_noted.mpr (ih (isSketched_noted.mp h))
  | case6 s => simp_all [Shape.putBound]

theorem IsSketched.folded (h : s.IsSketched c config) : s.folded.IsSketched c config := by
  intro label
  rw [sketch_folded]
  exact h label

theorem IsSketched.foldedBound (h : s.IsSketched c config) (b : Bound) :
    (s.foldedBound b).IsSketched c config := by
  refine IsSketched.folded ?_
  fun_induction Shape.bound standIn b s with
  | case1 inner ih => exact isSketched_nullable.mpr (ih (isSketched_nullable.mp h))
  | case2 inner notes ih =>
    rw [isSketched_noted, isSketched_nullable] at h
    exact isSketched_noted.mpr (isSketched_nullable.mpr (ih h))
  | case3 s hn hnn key ht d hd =>
    cases hd
    refine IsSketched.beside (fun label => ?_) b
    rw [underKey, sketch]
    exact ⟨_, rfl⟩
  | case4 s hn hnn key ht hd => cases hd
  | case5 s hn hnn ht hg => exact h.putBound b
  | case6 s hn hnn ht hg => exact h.beside b

theorem IsSketched.foldedBounds (h : s.IsSketched c config) (bounds : List Bound) :
    (bounds.foldl (fun s b => s.foldedBound b) s).IsSketched c config := by
  induction bounds generalizing s with
  | nil => exact h
  | cons b rest ih => exact ih (h.foldedBound b)

theorem stays_isSketched (c : Catalog) (config : Config) :
    Stays (IsSketched c config) (Mark.Decodes c (Config.dataForm config)) where
  guarded s h := isSketched_guarded.mpr h
  replaced s bare label := ⟨[], by rw [sketch]⟩
  concealed label := ⟨[], by rw [sketch]⟩
  bound s b h _ := h.foldedBound b
  field s facts bounds h _ := (h.foldedBounds bounds).note _
  defaulted s facts bounds h hm := isSketched_defaulted.mpr ⟨h, hm⟩
  nullable s h := isSketched_nullable.mpr h
  union shapes h := isSketched_union h

end Shape

namespace Shaping
variable {c : Catalog} {config : Config}

mutual
theorem isSketched_outline (sealedAllowed : Bool) : (a : TypeExpr) →
    a.IsText (Mark.Decodes c (Config.dataForm config)) → ∀ s, outline sealedAllowed a = .ok s →
      s.IsSketched c config
  | .plain p, ha, s, h => by
    rw [TypeExpr.IsText] at ha
    rw [outline] at h
    rcases ha with rfl | rfl <;> cases h <;> exact fun label => ⟨_, by rw [Shape.sketch]; rfl⟩
  | .union _ members, ha, s, h => by
    rw [TypeExpr.IsText] at ha
    rw [outline] at h
    obtain ⟨ts, ht, h⟩ := exists_of_bind_eq_ok h
    cases h
    refine (Shape.stays_isSketched c config).unionOf fun m hm => ?_
    exact isSketched_outlines sealedAllowed members ha ts ht m.2 (List.of_mem_zip hm).2
  | .marked base marks, ha, s, h => by
    rw [TypeExpr.IsText] at ha
    rw [outline] at h
    obtain ⟨t, ht, h⟩ := exists_of_bind_eq_ok h
    cases h
    have hstays := Shape.stays_isSketched c config
    exact hstays.withDefaults ha.2
      (hstays.outlineMarks (isSketched_outline sealedAllowed base ha.1) ha.2 ht)
  | .model _, ha, _, _ | .enumeration _, ha, _, _ | .literal _, ha, _, _ | .container _ _, ha, _, _
  | .tuple _, ha, _, _ | .dict _ _, ha, _, _ | .record _, ha, _, _ => by
    rw [TypeExpr.IsText] at ha
    · exact ha.elim
    all_goals exact nofun

theorem isSketched_outlines (sealedAllowed : Bool) : (types : List TypeExpr) →
    TypeExpr.AreTexts (Mark.Decodes c (Config.dataForm config)) types → ∀ shapes,
      outlines sealedAllowed types = .ok shapes → ∀ s ∈ shapes, s.IsSketched c config
  | [], _, shapes, h => by
    rw [outlines] at h
    cases h
    exact nofun
  | a :: rest, ha, shapes, h => by
    rw [outlines] at h
    obtain ⟨t, ht, h⟩ := exists_of_bind_eq_ok h
    obtain ⟨ts, hts, h⟩ := exists_of_bind_eq_ok h
    cases h
    intro s hs
    rcases List.mem_cons.mp hs with rfl | hs
    · exact isSketched_outline sealedAllowed a ha.1 s ht
    · exact isSketched_outlines sealedAllowed rest ha.2 ts hts s hs
end

theorem decodes_of_sketch {marks : List Mark} {s : Shape} {label : Key → String}
    {e : Entries Json} (h : (withDefaults marks s).sketch c label config = .ok e) :
    ∀ m ∈ marks, m.Decodes c (Config.dataForm config) := by
  have hall : ∀ (fallbacks : List Fallback) (s : Shape), (∃ e, (fallbacks.foldl (fun s f =>
      if f.isRequired then s else .defaulted s f) s).sketch c label config = .ok e) →
        (∀ f ∈ fallbacks, f.Decodes c (Config.dataForm config)) ∧
          ∃ e, s.sketch c label config = .ok e := by
    intro fallbacks
    induction fallbacks with
    | nil => exact fun s h => ⟨nofun, h⟩
    | cons f rest ih =>
      intro s h
      obtain ⟨hrest, hs⟩ := ih _ h
      dsimp only at hs
      by_cases hf : f.isRequired = true
      · rw [if_pos hf] at hs
        have hdecodes : f.Decodes c (Config.dataForm config) := by
          intro v hv
          cases f <;> cases hf
          cases hv
        exact ⟨List.forall_mem_cons.mpr ⟨hdecodes, hrest⟩, hs⟩
      · rw [if_neg hf, Shape.exists_sketch_defaulted_iff] at hs
        exact ⟨List.forall_mem_cons.mpr ⟨hs.2, hrest⟩, hs.1⟩
  intro m hm
  cases m with
  | field facts bounds =>
    exact (hall _ s ⟨e, h⟩).1 _ (List.mem_filterMap.mpr ⟨_, hm, rfl⟩)
  | _ => trivial

end Shaping

end Procedoc
