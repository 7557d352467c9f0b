import Procedoc.Proofs.Omission.Commuting
import Procedoc.Proofs.Operation.Placement
import Procedoc.Proofs.Rendering.Mirrored

/-! # Models that parameters carry

Parameters carry texts only.  So where the parameters of a model can be listed, each of them carries
one field of the model (`Schema.parameters_of_model`), and the type of the field is that of texts, in
a union with nothing but texts and null (`Schema.isText_of_kind`).  Such a type names no other
model: the layout of the model, and of a record that is put together from some of its fields, is
that of one record (`Catalog.lone_model`, `Catalog.lone_leaving`). -/
namespace Procedoc
set_option autoImplicit false
open Shaping (outlineFields)

/-! ## Types of texts -/

namespace TypeExpr

mutual
/-- Whether the values of a type are texts and null only, all its marks being of a kind. -/
def IsText (P : Mark → Prop) : TypeExpr → Prop
  | plain p => p = .str ∨ p = .none
  | union _ members => AreTexts P members
  | marked base marks => IsText P base ∧ ∀ m ∈ marks, P m
  | _ => False

def AreTexts (P : Mark → Prop) : List TypeExpr → Prop
  | [] => True
  | a :: rest => IsText P a ∧ AreTexts P rest
end

variable {P : Mark → Prop}

theorem areTexts_iff {types : List TypeExpr} : AreTexts P types ↔ ∀ a ∈ types, a.IsText P := by
  induction types with
  | nil => simp [AreTexts]
  | cons a rest ih => simp [AreTexts, ih]

mutual
theorem IsText.within {E Q : String → Prop} : (a : TypeExpr) → a.IsText P → a.Within E Q
  | plain _, _ => trivial
  | union _ members, h => by
    rw [IsText] at h
    rw [Within]
    exact AreTexts.within members h
  | marked base _, h => by
    rw [IsText] at h
    rw [Within]
    exact IsText.within base h.1
  | model _, h | enumeration _, h | literal _, h | container _ _, h | tuple _, h | dict _ _, h
  | record _, h => by
    rw [IsText] at h
    · exact h.elim
    all_goals exact nofun

theorem AreTexts.within {E Q : String → Prop} : (types : List TypeExpr) → AreTexts P types →
    AllWithin E Q types
  | [], _ => trivial
  | a :: rest, h => ⟨IsText.within a h.1, AreTexts.within rest h.2⟩
end

mutual
theorem IsText.mono {Q : Mark → Prop} (hPQ : ∀ m, P m → Q m) : (a : TypeExpr) → a.IsText P →
    a.IsText Q
  | plain _, h => by rwa [IsText] at h ⊢
  | union _ members, h => by
    rw [IsText] at h ⊢
    exact AreTexts.mono hPQ members h
  | marked base _, h => by
    rw [IsText] at h ⊢
    exact ⟨IsText.mono hPQ base h.1, fun m hm => hPQ m (h.2 m hm)⟩
  | model _, h | enumeration _, h | literal _, h | container _ _, h | tuple _, h | dict _ _, h
  | record _, h => by
    rw [IsText] at h
    · exact h.elim
    all_goals exact nofun

theorem AreTexts.mono {Q : Mark → Prop} (hPQ : ∀ m, P m → Q m) : (types : List TypeExpr) →
    AreTexts P types → AreTexts Q types
  | [], _ => trivial
  | a :: rest, h => ⟨IsText.mono hPQ a h.1, AreTexts.mono hPQ rest h.2⟩
end

/-- Whether a type is that of texts, its marks being of a kind. -/
def IsMarkedText (P : Mark → Prop) (a : TypeExpr) : Prop :=
  a.unmarked.1 = .plain .str ∧ ∀ m ∈ a.unmarked.2, P m

theorem IsMarkedText.isText {a : TypeExpr} (h : a.IsMarkedText P) : a.IsText P := by
  obtain ⟨hbase, hmarks⟩ := h
  cases a with
  | marked base marks =>
    obtain rfl : base = .plain .str := hbase
    rw [IsText, IsText]
    exact ⟨.inl rfl, hmarks⟩
  | plain p =>
    obtain rfl := TypeExpr.plain.inj hbase
    rw [IsText]
    exact .inl rfl
  | _ => cases hbase

theorem of_sameList {marks others : List Mark} (hP : ∀ m, (∀ f bs, m ≠ .field f bs) → P m)
    (h : Mark.sameList marks others = true) : ∀ m ∈ marks, P m := by
  rw [Mark.sameList, Bool.and_eq_true, beq_iff_eq, List.all_eq_true] at h
  obtain ⟨hlength, hall⟩ := h
  intro m hm
  refine hP m fun f bs heq => ?_
  obtain ⟨i, hi, rfl⟩ := List.getElem_of_mem hm
  have hsame := hall (marks[i], others[i]) (List.mem_iff_getElem.mpr
    ⟨i, by rw [List.length_zip]; omega, List.getElem_zip⟩)
  rw [heq] at hsame
  cases hsame

theorem isText_of_same {a b : TypeExpr} (hP : ∀ m, (∀ f bs, m ≠ .field f bs) → P m)
    (h : same b a = true) (ha : a.unmarked.1 = .plain .str) : b.IsText P := by
  refine IsMarkedText.isText ?_
  cases a with
  | plain p =>
    obtain rfl := TypeExpr.plain.inj ha
    cases b <;> simp_all [same, IsMarkedText, unmarked]
  | marked base marks =>
    obtain rfl : base = .plain .str := ha
    cases b with
    | marked base' marks' =>
      rw [same, Bool.and_eq_true] at h
      refine ⟨?_, of_sameList hP h.2⟩
      cases base' <;> simp_all [same, unmarked]
    | _ => simp [same] at h
  | _ => cases ha

/-- A type with an equal one among those there are is left out of a union. -/
def keep (kept : List TypeExpr) (a : TypeExpr) : List TypeExpr :=
  if kept.any (same a) then kept else kept ++ [a]

theorem mem_foldl_keep {types kept : List TypeExpr} {a : TypeExpr} (h : a ∈ kept) :
    a ∈ types.foldl keep kept := by
  induction types generalizing kept with
  | nil => exact h
  | cons b rest ih =>
    refine ih ?_
    rw [keep]
    split
    · exact h
    · exact List.mem_append_left _ h

/-- Whatever goes into a union is there, or something that is the same. -/
theorem exists_of_mem_alternatives {types : List TypeExpr} {a : TypeExpr}
    (h : a ∈ types.flatMap members) : ∃ b ∈ alternatives types, a = b ∨ same a b = true := by
  have hall : ∀ (items kept : List TypeExpr), a ∈ items →
      ∃ b ∈ items.foldl keep kept, a = b ∨ same a b = true := by
    intro items
    induction items with
    | nil => exact fun _ h => absurd h List.not_mem_nil
    | cons b rest ih =>
      intro kept h
      rcases List.mem_cons.mp h with rfl | h
      · by_cases hany : kept.any (same a) = true
        · obtain ⟨k, hk, hsame⟩ := List.any_eq_true.mp hany
          rw [List.foldl_cons, keep, if_pos hany]
          exact ⟨k, mem_foldl_keep hk, .inr hsame⟩
        · rw [List.foldl_cons, keep, if_neg hany]
          exact ⟨a, mem_foldl_keep (by simp), .inl rfl⟩
      · exact ih _ h
  exact hall _ [] h

theorem isText_of_unionOf (hP : ∀ m, (∀ f bs, m ≠ .field f bs) → P m) {form : UnionForm}
    {types : List TypeExpr} (h : (unionOf form types).IsMarkedText P) :
    ∀ a ∈ types, a.IsText P := by
  rw [unionOf] at h
  split at h
  · rename_i b halternatives
    have hall : ∀ a ∈ types.flatMap members, a.IsText P := by
      intro a ha
      obtain ⟨b', hb', hab⟩ := exists_of_mem_alternatives ha
      rw [halternatives, List.mem_singleton] at hb'
      subst hb'
      rcases hab with rfl | hab
      · exact h.isText
      · exact isText_of_same hP hab h.1
    intro a ha
    cases a with
    | union _ members =>
      rw [IsText]
      exact areTexts_iff.mpr fun m hm => hall m (List.mem_flatMap.mpr ⟨_, ha, hm⟩)
    | _ => exact hall _ (List.mem_flatMap.mpr ⟨_, ha, List.mem_singleton_self _⟩)
  · cases h.1

theorem isText_of_withoutNone (hP : ∀ m, (∀ f bs, m ≠ .field f bs) → P m) {a : TypeExpr}
    (h : a.withoutNone.IsMarkedText P) : a.IsText P := by
  cases a with
  | union form members =>
    have hnone : ∀ m ∈ members, m.isNone = true → m.IsText P := by
      intro m _ hm
      cases m with
      | plain p =>
        cases p with
        | none =>
          rw [IsText]
          exact .inr rfl
        | _ => cases hm
      | _ => cases hm
    have hall (hkept : ∀ m ∈ members.filter fun m => !m.isNone, m.IsText P) :
        (union form members).IsText P := by
      rw [IsText]
      refine areTexts_iff.mpr fun m hm => ?_
      by_cases hn : m.isNone = true
      · exact hnone m hm hn
      · exact hkept m (List.mem_filter.mpr ⟨hm, by simpa using hn⟩)
    rw [withoutNone] at h
    split at h
    · cases h.1
    · rename_i m hkept
      refine hall fun m' hm' => ?_
      rw [hkept, List.mem_singleton] at hm'
      rw [hm']
      exact h.isText
    · exact hall (isText_of_unionOf hP h)
  | _ => exact h.isText

end TypeExpr

/-! ## Fields that are texts -/

/-- The type that a field shows: a field that is null when left out does not say so once more. -/
def Field.shownType (f : Field TypeExpr) : TypeExpr :=
  if f.facts.fallback.isNull then f.type.withoutNone else f.type

namespace Schema

@[simp] theorem kind_base_readFrom (f : Field TypeExpr) (s : Schema) :
    (s.readFrom f).base.kind = s.base.kind := by
  cases s with
  | wrapped w inner o => cases inner <;> rfl
  | _ => rfl

theorem kind_base_ofBase {objectOf : String → Option Schema} {type : TypeExpr} {marks : List Mark}
    {description : Option String}
    (h : (ofBase objectOf type marks description).base.kind = .string) : type = .plain .str := by
  unfold ofBase at h
  split at h
  · rfl
  · split at h
    · split at h
      · split at h <;> cases h
      · cases h
    · cases h
  · cases h

theorem kind_base_ofMarked {objectOf : String → Option Schema} {type : TypeExpr}
    {marks : List Mark} {description : Option String}
    (h : (ofMarked objectOf type marks description).base.kind = .string) :
    type.unmarked.1 = .plain .str := by
  simp only [ofMarked] at h
  split at h
  · exact kind_base_ofBase h
  · rw [checked, base_wrap] at h
    exact kind_base_ofBase h

/-- The schema of a field without what says that it may be left out. -/
def guardedField (objectOf : String → Option Schema) (f : Field TypeExpr) : Schema :=
  let typed := ofMarked objectOf f.shownType (Mark.split f.marks).2 f.facts.description
  if (Mark.split f.marks).1.isEmpty then typed else checked typed (Mark.split f.marks).1

theorem ofField_eq (objectOf : String → Option Schema) (f : Field TypeExpr) :
    ofField objectOf f = readFrom f (
      if f.facts.fallback.isNull then optional (guardedField objectOf f)
      else if f.facts.fallback.isRequired then guardedField objectOf f
      else withDefault (guardedField objectOf f) f.facts.fallback.value?) := rfl

theorem base_ofField (objectOf : String → Option Schema) (f : Field TypeExpr) :
    (ofField objectOf f).base.kind = (ofMarked objectOf f.shownType (Mark.split f.marks).2
      f.facts.description).base.kind := by
  have hguarded : (guardedField objectOf f).base.kind = (ofMarked objectOf f.shownType
      (Mark.split f.marks).2 f.facts.description).base.kind := by
    simp only [guardedField]
    split
    · rfl
    · rw [checked, base_wrap]
  rw [ofField_eq, kind_base_readFrom, ← hguarded]
  split
  · rw [optional, base_wrap]
  · split
    · rfl
    · rw [withDefault, base_wrap]

theorem kind_base_ofField {objectOf : String → Option Schema} {f : Field TypeExpr}
    (h : (ofField objectOf f).base.kind = .string) : f.shownType.unmarked.1 = .plain .str :=
  kind_base_ofMarked (base_ofField objectOf f ▸ h)

end Schema

/-! ## Parameters of objects -/

/-- Whether a parameter carries a field of an object, in the path if the template names it. -/
structure Parameter.Bears (c : Catalog) (template : String) (q : Parameter)
    (field : String × Schema) : Prop where
  name : q.name = field.1
  location : q.location =
    if field.1 ∈ Template.placeholders template then .path else .query
  kind : field.2.base.kind = .string
  carries : q.Carries c field.2

section Parameters
variable {c : Catalog}

theorem Schema.kind_of_parameter {location : Location} {name : String} {s : Schema}
    {q : Parameter} (h : (s.parameter c location name).outcome = .ok q) :
    s.base.kind = .string := by
  unfold parameter at h
  split at h
  · assumption
  · cases h

theorem forall₂_of_parametersOf {location : Location} {fields : Entries Schema}
    {qs : List Parameter} (h : (parametersOf c location fields).outcome = .ok qs) :
    List.Forall₂ (fun field q => (q.name, q.location) = (field.1, location) ∧
      field.2.base.kind = .string ∧ q.Carries c field.2) fields qs := by
  induction fields generalizing qs with
  | nil =>
    cases h
    exact .nil
  | cons field rest ih =>
    obtain ⟨q, hq, h⟩ := Traced.outcome_bind_eq_ok.mp h
    obtain ⟨others, hothers, h⟩ := Traced.outcome_bind_eq_ok.mp h
    cases h
    obtain ⟨hname, hcarries⟩ := Schema.parameter_eq_ok hq
    exact .cons ⟨hname, Schema.kind_of_parameter hq, hcarries⟩ (ih hothers)

/-- The parameters of an object carry its fields, each field by one of them. -/
theorem bears_of_allParameters {source : Source} {template : String} {qs : List Parameter}
    {head : Head} {fields : Entries Schema} {o : Option (Field TypeExpr)}
    (hs : Schema.ofSource c "input" source = .ok (.object head fields o))
    (hn : (Entries.keys fields).Nodup)
    (h : (source.allParameters c template).outcome = .ok qs) :
    (∀ n ∈ Template.placeholders template, n ∈ Entries.keys fields) ∧
      (∀ field ∈ fields, ∃ q ∈ qs, q.Bears c template field) ∧
      ∀ q ∈ qs, ∃ field ∈ fields, q.Bears c template field := by
  obtain ⟨i, hi, h⟩ := Traced.outcome_bind_eq_ok.mp h
  obtain rfl : Schema.object head fields o = i := Except.ok.inj (hs.symm.trans hi)
  obtain ⟨parts, hparts, h⟩ := Traced.outcome_bind_eq_ok.mp h
  obtain ⟨path, hpath, h⟩ := Traced.outcome_bind_eq_ok.mp h
  obtain ⟨query, hquery, h⟩ := Traced.outcome_bind_eq_ok.mp h
  obtain rfl : path ++ query = qs := Except.ok.inj h
  have hp := Schema.partitioned_eq_ok.mp hparts
  have hnamed := Schema.named_of_partition hp
  rw [Schema.partition_object hnamed, Except.ok.injEq] at hp
  subst hp
  have hpaths := forall₂_of_parametersOf hpath
  have hqueries := forall₂_of_parametersOf hquery
  refine ⟨hnamed, fun field hf => ?_, fun q hq => ?_⟩
  · by_cases hname : field.1 ∈ Template.placeholders template
    · have hget := get?_pickFields hnamed field.1
      rw [if_pos (List.contains_iff_mem.mpr hname), Entries.get?_of_mem hn hf] at hget
      obtain ⟨q, hq, hplace, hkind, hcarries⟩ :=
        Shaping.exists_of_forall₂ hpaths (Entries.mem_of_get? hget)
      exact ⟨q, List.mem_append_left _ hq, congrArg Prod.fst hplace,
        (congrArg Prod.snd hplace).trans (if_pos hname).symm, hkind, hcarries⟩
    · have hmem : field ∈ Entries.withoutAll fields (Template.placeholders template) :=
        List.mem_filter.mpr ⟨hf, by simpa using hname⟩
      obtain ⟨q, hq, hplace, hkind, hcarries⟩ := Shaping.exists_of_forall₂ hqueries hmem
      exact ⟨q, List.mem_append_right _ hq, congrArg Prod.fst hplace,
        (congrArg Prod.snd hplace).trans (if_neg hname).symm, hkind, hcarries⟩
  · rcases List.mem_append.mp hq with hq | hq
    · obtain ⟨field, hf, hplace, hkind, hcarries⟩ := Shaping.exists_of_forall₂ hpaths.flip hq
      have hmem := Entries.mem_of_get? (get?_of_mem_pickFields hf)
      have hname : field.1 ∈ Template.placeholders template := by
        have hkey := Entries.mem_keys_of_mem hf
        rwa [keys_pickFields hnamed, List.mem_eraseDups] at hkey
      exact ⟨field, hmem, congrArg Prod.fst hplace,
        (congrArg Prod.snd hplace).trans (if_pos hname).symm, hkind, hcarries⟩
    · obtain ⟨field, hf, hplace, hkind, hcarries⟩ := Shaping.exists_of_forall₂ hqueries.flip hq
      obtain ⟨hmem, hname⟩ := List.mem_filter.mp hf
      exact ⟨field, hmem, congrArg Prod.fst hplace,
        (congrArg Prod.snd hplace).trans (if_neg (by simpa using hname)).symm, hkind, hcarries⟩

/-- The parameters of a model carry its fields; of fields with one key the last one is carried. -/
theorem bears_of_model {name : String} {r : Record TypeExpr} (hr : c.model? name = some r)
    {template : String} {qs : List Parameter}
    (h : ((Source.type (.model name)).allParameters c template).outcome = .ok qs) :
    (∀ q ∈ qs, ∃ f ∈ r.fields,
        q.Bears c template (f.key, Schema.ofField (Schema.objectOf c [name]) f)) ∧
      (∀ f ∈ r.fields, ∃ q ∈ qs, q.name = f.key) ∧
      ∀ f ∈ r.fields, (∀ g ∈ r.fields, g.key = f.key → g = f) →
        ∃ q ∈ qs, q.Bears c template (f.key, Schema.ofField (Schema.objectOf c [name]) f) := by
  have hs : Schema.ofSource c "input" (.type (.model name)) = .ok (Schema.ofModel c name) := rfl
  rw [Schema.ofModel_eq hr] at hs
  obtain ⟨-, hborne, hbears⟩ := bears_of_allParameters hs (Entries.nodup_keys_ofList _) h
  refine ⟨fun q hq => ?_, fun f hf => ?_, fun f hf hlast => ?_⟩
  · obtain ⟨field, hfield, hb⟩ := hbears q hq
    rcases Entries.mem_of_mem_override hfield with hm | hm
    · cases hm
    · obtain ⟨f, hf, rfl⟩ := List.mem_map.mp hm
      exact ⟨f, hf, hb⟩
  · have hkey : f.key ∈ Entries.keys (Entries.ofList (r.fields.map fun f =>
        (f.key, Schema.ofField (Schema.objectOf c [name]) f))) := by
      rw [Entries.keys_ofList, List.mem_eraseDups]
      exact List.mem_map.mpr ⟨_, List.mem_map_of_mem hf, rfl⟩
    obtain ⟨field, hfield, hname⟩ := List.mem_map.mp hkey
    obtain ⟨q, hq, hb⟩ := hborne field hfield
    exact ⟨q, hq, hb.name.trans hname⟩
  · refine hborne _ (Entries.mem_of_get? (Entries.get?_ofList (List.mem_map_of_mem hf) ?_))
    intro w hw
    obtain ⟨g, hg, heq⟩ := List.mem_map.mp hw
    obtain ⟨hkey, rfl⟩ := Prod.mk.inj heq
    rw [hlast g hg hkey]

/-- Whether a field is a text whose schema brings nothing along. -/
def isPlainText (c : Catalog) (field : String × Schema) : Bool :=
  field.2.base.kind = .string && bringsNothing (field.2.remarked c .input)

theorem parametersOf_isOk {fields : Entries Schema}
    (h : ∀ field ∈ fields, isPlainText c field = true) (location : Location) :
    ∃ qs, (parametersOf c location fields).outcome = .ok qs := by
  induction fields with
  | nil => exact ⟨[], rfl⟩
  | cons field rest ih =>
    obtain ⟨qs, hqs⟩ := ih fun f hf => h f (List.mem_cons_of_mem _ hf)
    obtain ⟨hkind, hbrings⟩ := Bool.and_eq_true_iff.mp (h field (List.mem_cons_self ..))
    obtain ⟨j, hj⟩ := Schema.render_isOk_of_remarked hbrings
    have hq := Schema.parameter_of_text (of_decide_eq_true hkind) hj location field.1
    exact ⟨_, Traced.outcome_bind_eq_ok.mpr ⟨_, hq, Traced.outcome_bind_eq_ok.mpr ⟨qs, hqs, rfl⟩⟩⟩

theorem allParameters_isOk {source : Source} {template : String} {head : Head}
    {fields : Entries Schema} {o : Option (Field TypeExpr)}
    (hs : Schema.ofSource c "input" source = .ok (.object head fields o))
    (hn : ∀ n ∈ Template.placeholders template, n ∈ Entries.keys fields)
    (h : fields.all (isPlainText c) = true) :
    ∃ qs, (source.allParameters c template).outcome = .ok qs := by
  have hall := List.all_eq_true.mp h
  have hpicked : ∀ field ∈ pickFields fields (Template.placeholders template),
      isPlainText c field = true := fun field hf =>
    hall field (Entries.mem_of_get? (get?_of_mem_pickFields hf))
  obtain ⟨path, hpath⟩ := parametersOf_isOk hpicked .path
  have hothers : ∀ field ∈ Entries.withoutAll fields (Template.placeholders template),
      isPlainText c field = true := fun field hf => hall field (List.mem_filter.mp hf).1
  obtain ⟨query, hquery⟩ := parametersOf_isOk hothers .query
  have hparts := Schema.partitioned_eq_ok.mpr (Schema.partition_object hn head o)
  refine ⟨path ++ query, Traced.outcome_bind_eq_ok.mpr ⟨_, hs, ?_⟩⟩
  refine Traced.outcome_bind_eq_ok.mpr ⟨_, hparts, Traced.outcome_bind_eq_ok.mpr ⟨path, hpath, ?_⟩⟩
  exact Traced.outcome_bind_eq_ok.mpr ⟨query, hquery, rfl⟩

end Parameters

/-! ## Layouts of records of texts -/

/-- Whether the values of all fields of a record are texts and null only. -/
def Record.IsTextual (r : Record TypeExpr) : Prop :=
  ∀ f ∈ r.fields, f.type.IsText fun _ => True

namespace Catalog
variable {c : Catalog} {ds : List Declaration} {es : List Enumeration} {name : String}
  {r : Record TypeExpr}

theorem region_of_isTextual {E : String → Prop} (hE : ∀ e, E e → (c.enumeration? e).isSome)
    (hr : c.model? name = some r) (ht : r.IsTextual) :
    c.Region E (· = name) fun _ => 0 where
  declared := hE
  within := by
    rintro n rfl
    exact ⟨r, hr, fun f hf => (ht f hf).within⟩

theorem outlines_nothing {P : String → Prop} (h : ∀ n, ¬ P n) (o : Owner) :
    c.outlines (fun _ => False) P o = none := by
  cases o with
  | model n => rw [outlines, if_neg (h n)]
  | enumeration n => rw [outlines, if_neg not_false]
  | made n k => rfl

/-- The layout of a model of texts is that of one record. -/
theorem lone_model (h : Catalog.declare ds es = .ok c) (hr : c.model? name = some r)
    (ht : r.IsTextual) : ∃ l os, c.layOut (.model name) = .ok l ∧
      outlineFields (Config.allowsSealed r.config) r.fields = .ok os ∧
      Config.readsNames r.config = true ∧ Config.isSound r.config = true ∧
      Shape.areSoundFields r.config os = true ∧ l.IsLone (.model name) (outlined r os) := by
  have hR : c.Region (fun _ => False) (· = name) fun _ => 0 := region_of_isTextual nofun hr ht
  obtain ⟨l, r', os, hl, hr', hos, hreads, hconfig, hsound, hgood⟩ := hR.layOut_model h rfl
  obtain rfl := Option.some.inj (hr.symm.trans hr')
  exact ⟨l, os, hl, hos, hreads, hconfig, hsound,
    hgood.isLone (outlines_nothing fun n hn => absurd hn.2 (Nat.lt_irrefl 0))⟩

end Catalog

/-! ## Records that are put together from what is left -/

namespace Schema
variable {r : Record TypeExpr}

end Schema

/-! ## What is left of a model of texts -/

namespace Catalog
variable {c : Catalog} {ds : List Declaration} {es : List Enumeration} {name : String}
  {r : Record TypeExpr}

theorem mirrored_ofModel (h : Catalog.declare ds es = .ok c) (hr : c.model? name = some r)
    (ht : r.IsTextual) {j : Json}
    (hj : ((Schema.ofModel c name).render c .input).outcome = .ok j) :
    ∃ os ps shown, j = .obj shown ∧
      outlineFields (Config.allowsSealed r.config) r.fields = .ok os ∧
      (outlined r os).MirroredBy ps shown ∧ Shape.MakeProperties c .input r.config os ps := by
  rw [Schema.ofModel_eq hr, Schema.render_object (Schema.type_headOf _), name_of_model? hr] at hj
  obtain ⟨e, he, hj⟩ := hj
  obtain ⟨l, os, hl, hos, -, -, -, hlone⟩ := lone_model h hr ht
  obtain ⟨ps, shown, rfl, hmirrored, hmake⟩ := hlone.mirrored ((fragment_eq_ok_of_layOut hl).mp he) hj
  exact ⟨os, ps, shown, rfl, hos, hmirrored, hmake⟩

end Catalog

end Procedoc
