import Procedoc.Declaration
import Procedoc.Proofs.Likeness
import Procedoc.Proofs.Shaping.Tidying

/-! # Layouts of declared models

A `Region` is a set of models that names only models in it, and none around itself.  Once all
declarations are made, each model of a region has a layout that is known, good and sound
(`Region.stored`): the models may have been declared in any order, and each layout may have been
worked out from others that were known by then. -/
namespace Procedoc
set_option autoImplicit false
open ExceptT (result_pure result_throw result_get result_set result_modify result_bind
  result_tryCatch)

/-! ## Sound outlines -/

namespace Shape
variable {Δ : Outlines}

theorem areSoundFields_iff {config : Config} {fields : List (Field Shape)} :
    areSoundFields config fields = true ↔ ∀ f ∈ fields, f.type.isSound config = true := by
  induction fields with
  | nil => simp [areSoundFields]
  | cons f rest ih => simp [areSoundFields, ih]

mutual
theorem isSound_folded {config : Config} : (s : Shape) → s.isSound config = true →
    s.folded.isSound config = true
  | container _ inner _, h => by
    rw [isSound, Bool.and_eq_true] at h
    rw [folded, isSound, Bool.and_eq_true]
    exact ⟨h.1, isSound_folded inner h.2⟩
  | chained inner _, h => by
    rw [isSound, Bool.and_eq_true] at h
    rw [folded, isSound, Bool.and_eq_true]
    exact ⟨h.1, isSound_folded inner h.2⟩
  | nullable inner, h | guarded inner, h | defaulted inner _, h | noted inner _, h => by
    rw [isSound] at h
    rw [folded, isSound]
    exact isSound_folded inner h
  | tuple items _, h => by
    rw [isSound, Bool.and_eq_true] at h
    rw [folded, isSound, Bool.and_eq_true]
    exact ⟨h.1, areSound_foldedList items h.2⟩
  | union items, h => by
    rw [isSound] at h
    rw [folded, isSound]
    exact areSound_foldedList items h
  | dict a b _, h => by
    rw [isSound, Bool.and_eq_true, Bool.and_eq_true] at h
    rw [folded, isSound, Bool.and_eq_true, Bool.and_eq_true]
    exact ⟨⟨h.1.1, isSound_folded a h.1.2⟩, isSound_folded b h.2⟩
  | record _ _, _ | enumeration _ _, _ | replaced _ _, _ | reference _, _ | shared _, _
  | literal _, _ | concealed, _ => rfl
  | plain _ _, h => h

theorem areSound_foldedList {config : Config} : (shapes : List Shape) →
    areSound config shapes = true → areSound config (foldedList shapes) = true
  | [], _ => rfl
  | s :: rest, h => by
    rw [areSound, Bool.and_eq_true] at h
    rw [foldedList, areSound, Bool.and_eq_true]
    exact ⟨isSound_folded s h.1, areSound_foldedList rest h.2⟩
end

def SoundOutlines (Δ : Outlines) : Prop :=
  ∀ o r, Δ o = some (.record r) →
    Config.isSound r.config = true ∧ areSoundFields r.config r.fields = true

mutual
theorem isSound_of_folded (hΔ : SoundOutlines Δ) {config : Config} : (s : Shape) → s.Agrees Δ →
    s.folded.isSound config = true → s.isSound config = true
  | container _ inner _, ha, h | chained inner _, ha, h => by
    rw [Agrees] at ha
    rw [folded, isSound, Bool.and_eq_true] at h
    rw [isSound, Bool.and_eq_true]
    exact ⟨h.1, isSound_of_folded hΔ inner ha h.2⟩
  | nullable inner, ha, h | guarded inner, ha, h | defaulted inner _, ha, h
  | noted inner _, ha, h => by
    rw [Agrees] at ha
    rw [folded, isSound] at h
    rw [isSound]
    exact isSound_of_folded hΔ inner ha h
  | tuple items _, ha, h => by
    rw [Agrees] at ha
    rw [folded, isSound, Bool.and_eq_true] at h
    rw [isSound, Bool.and_eq_true]
    exact ⟨h.1, areSound_of_foldedList hΔ items ha h.2⟩
  | union items, ha, h => by
    rw [Agrees] at ha
    rw [folded, isSound] at h
    rw [isSound]
    exact areSound_of_foldedList hΔ items ha h
  | dict a b _, ha, h => by
    rw [Agrees] at ha
    rw [folded, isSound, Bool.and_eq_true, Bool.and_eq_true] at h
    rw [isSound, Bool.and_eq_true, Bool.and_eq_true]
    exact ⟨⟨h.1.1, isSound_of_folded hΔ a ha.1 h.1.2⟩, isSound_of_folded hΔ b ha.2 h.2⟩
  | record key ⟨name, doc, own, fields⟩, ha, _ => by
    rw [Agrees] at ha
    obtain ⟨hown, hfields⟩ := hΔ _ _ ha.1
    rw [isSound, Bool.and_eq_true]
    refine ⟨hown, areSoundFields_of_folded hΔ fields ha.2 fun f hf => ?_⟩
    exact areSoundFields_iff.mp hfields (foldedField f) (List.mem_map_of_mem hf)
  | enumeration _ _, _, _ | replaced _ _, _, _ | reference _, _, _ | shared _, _, _
  | literal _, _, _ | concealed, _, _ => rfl
  | plain _ _, _, h => h

theorem areSound_of_foldedList (hΔ : SoundOutlines Δ) {config : Config} :
    (shapes : List Shape) → AgreeAll Δ shapes → areSound config (foldedList shapes) = true →
    areSound config shapes = true
  | [], _, _ => rfl
  | s :: rest, ha, h => by
    rw [foldedList, areSound, Bool.and_eq_true] at h
    rw [areSound, Bool.and_eq_true]
    exact ⟨isSound_of_folded hΔ s ha.1 h.1, areSound_of_foldedList hΔ rest ha.2 h.2⟩

theorem areSoundFields_of_folded (hΔ : SoundOutlines Δ) {config : Config} :
    (fields : List (Field Shape)) → AgreeFields Δ fields →
    (∀ f ∈ fields, f.type.folded.isSound config = true) → areSoundFields config fields = true
  | [], _, _ => rfl
  | ⟨name, s, marks, facts, ruled⟩ :: rest, ha, h => by
    rw [areSoundFields, Bool.and_eq_true]
    refine ⟨isSound_of_folded hΔ s ha.1 (h ⟨name, s, marks, facts, ruled⟩ (List.mem_cons_self ..)),
      areSoundFields_of_folded hΔ rest ha.2 fun f hf => h f (List.mem_cons_of_mem _ hf)⟩
end

end Shape

/-- A good layout of a sound record is sound, where all records are. -/
theorem Layout.Good.isSound {Δ : Outlines} {l : Layout} {key : Key} {o : Record Shape}
    (hl : l.Good Δ key o) (hΔ : Shape.SoundOutlines Δ) (hconfig : Config.isSound o.config = true)
    (hsound : Shape.areSoundFields o.config o.fields = true) : l.isSound = true := by
  obtain ⟨fields, htop, hmap, hagree⟩ := hl.top
  rw [Layout.isSound, htop, Bool.and_eq_true, List.all_eq_true, Shape.isSound, Bool.and_eq_true]
  refine ⟨⟨hconfig, ?_⟩, fun p hp => ?_⟩
  · rw [← hmap] at hsound
    refine Shape.areSoundFields_of_folded hΔ fields hagree fun f hf => ?_
    exact Shape.areSoundFields_iff.mp hsound (Shape.foldedField f) (List.mem_map_of_mem hf)
  · refine Shape.isSound_of_folded hΔ p.2 (hl.defines p hp).2 ?_
    rw [Shape.folded_of_key? (hl.defines p hp).1]
    rfl

/-! ## Regions -/

/-- Whether the models of a kind name only enumerations of a kind, which are declared, and models of
the kind that are of lower rank. -/
structure Catalog.Region (c : Catalog) (E S : String → Prop) (rank : String → Nat) : Prop where
  declared : ∀ e, E e → (c.enumeration? e).isSome
  within : ∀ n, S n → ∃ r, c.model? n = some r ∧
    ∀ f ∈ r.fields, f.type.Within E fun m => S m ∧ rank m < rank n

def Catalog.Outlined (c : Catalog) (name : String) : Prop :=
  ∃ r fields, c.model? name = some r ∧
    Shaping.outlineFields (Config.allowsSealed r.config) r.fields = .ok fields

open Classical in
/-- What the enumerations and the models of a kind look like. -/
noncomputable def Catalog.outlines (c : Catalog) (E P : String → Prop) : Outlines
  | .model name =>
    if P name then
      (c.model? name).bind fun r =>
        match Shaping.outlineFields (Config.allowsSealed r.config) r.fields with
        | .ok fields => some (.record { name := r.name, doc := r.doc, config := r.config, fields })
        | .error _ => none
    else none
  | .enumeration name => if E name then (c.enumeration? name).map .enumeration else none
  | .made _ _ => none

/-- Whether a catalog holds the declarations of another, and possibly more. -/
structure Catalog.Within (c c' : Catalog) : Prop where
  models : ∃ more, c'.models = c.models ++ more
  enumerations : c'.enumerations = c.enumerations

variable {c c' : Catalog} {E S P Q : String → Prop} {rank : String → Nat}

namespace Catalog

theorem Within.trans {c'' : Catalog} (h : c.Within c') (h' : c'.Within c'') : c.Within c'' := by
  obtain ⟨more, hm⟩ := h.models
  obtain ⟨more', hm'⟩ := h'.models
  exact ⟨⟨more ++ more', by rw [hm', hm, List.append_assoc]⟩,
    h'.enumerations.trans h.enumerations⟩

theorem Within.model? (h : c.Within c') {name : String} {r : Record TypeExpr}
    (hr : c.model? name = some r) : c'.model? name = some r := by
  obtain ⟨more, hm⟩ := h.models
  rw [Catalog.model?, hm, List.find?_append]
  rw [Catalog.model?] at hr
  rw [hr]
  rfl

theorem Within.enumeration? (h : c.Within c') (name : String) :
    c'.enumeration? name = c.enumeration? name := by
  rw [Catalog.enumeration?, Catalog.enumeration?, h.enumerations]

theorem outlines_model {name : String} (hP : P name) {r : Record TypeExpr}
    (hr : c.model? name = some r) {fields : List (Field Shape)}
    (hf : Shaping.outlineFields (Config.allowsSealed r.config) r.fields = .ok fields) :
    c.outlines E P (.model name) =
      some (.record { name := r.name, doc := r.doc, config := r.config, fields }) := by
  rw [outlines, if_pos hP, hr, Option.bind_some, hf]

theorem isSome_outlines {name : String} (hP : P name) (h : c.Outlined name) :
    (c.outlines E P (.model name)).isSome := by
  obtain ⟨r, fields, hr, hf⟩ := h
  rw [outlines_model hP hr hf]
  rfl

theorem outlines_mono (h : ∀ name, P name → Q name) (o : Owner) (d : Outline)
    (hd : c.outlines E P o = some d) : c.outlines E Q o = some d := by
  cases o with
  | model name =>
    rw [outlines] at hd ⊢
    by_cases hP : P name
    · rw [if_pos hP] at hd
      rwa [if_pos (h name hP)]
    · rw [if_neg hP] at hd
      cases hd
  | enumeration name => exact hd
  | made name number => exact hd

/-- The models of a kind that are below a rank. -/
def Below (S : String → Prop) (rank : String → Nat) (k : Nat) (name : String) : Prop :=
  S name ∧ rank name < k

/-- What a record looks like whose fields have outlines. -/
def outlined (r : Record TypeExpr) (fields : List (Field Shape)) : Record Shape where
  name := r.name
  doc := r.doc
  config := r.config
  fields := fields

/-- Whether the layout of a model is good and sound, and its fields have names. -/
structure Stores (c : Catalog) (E S : String → Prop) (rank : String → Nat) (name : String)
    (l : Layout) : Prop where
  good : ∃ r fields, c.model? name = some r ∧
    Shaping.outlineFields (Config.allowsSealed r.config) r.fields = .ok fields ∧
    Config.readsNames r.config = true ∧
    l.Good (c.outlines E (Below S rank (rank name))) (.model name) (outlined r fields)
  sound : l.isSound = true

theorem Stores.goodFor {name : String} {l : Layout} (h : c.Stores E S rank name l)
    (hQ : ∀ m, Below S rank (rank name) m → Q m) (hname : Q name) :
    ∃ r fields, c.model? name = some r ∧
      Shaping.outlineFields (Config.allowsSealed r.config) r.fields = .ok fields ∧
      Config.readsNames r.config = true ∧
      l.Good (c.outlines E Q) (.model name) (outlined r fields) ∧
      c.outlines E Q (.model name) = some (.record (outlined r fields)) := by
  obtain ⟨r, fields, hr, hf, hreads, hgood⟩ := h.good
  exact ⟨r, fields, hr, hf, hreads, hgood.mono fun o d hd => outlines_mono hQ o d hd,
    outlines_model hname hr hf⟩

end Catalog

/-! ## Opening models -/

namespace Shaping

/-- The stops that working on the models of a region may meet. -/
def Bad (c : Catalog) (S : String → Prop) (e : Stop) : Prop :=
  e ≠ .unsupported ∧ ((∀ name, S name → (c.model? name).isSome) → e ≠ .unresolved)

theorem bad_of_ne {e : Stop} (h : e ≠ .unsupported) (h' : e ≠ .unresolved) : Bad c S e :=
  ⟨h, fun _ => h'⟩

theorem works_fields (hR : c.Region E S rank) (hc : c'.Within c) {name : String} (hS : S name)
    {r : Record TypeExpr} (hr : c.model? name = some r) {bad : Stop → Prop}
    (hbad : ¬ bad .unsupported) {openModel : String → Shaping Shape}
    (hopen : ∀ m, S m → rank m < rank name → ∀ w : Workbench, w.Good (c.outlines E P) →
      Works (c.outlines E P) bad w (openModel m) (.ok (.reference (.model m)))
        (Laid (c.outlines E P))) {w : Workbench} (hw : w.Good (c.outlines E P)) :
    Works (c.outlines E P) bad w
      (shapeFields c' openModel (Config.allowsSealed r.config) r.fields)
      (outlineFields (Config.allowsSealed r.config) r.fields)
      fun w => List.Forall₂ (LaidField (c.outlines E P) w) := by
  obtain ⟨r', hr', hwithin⟩ := hR.within name hS
  rw [hr] at hr'
  cases hr'
  refine works_shapeFields hbad (fun e he => ?_) (fun m hm w hw => hopen m hm.1 hm.2 w hw)
    (Config.allowsSealed r.config) hwithin hw
  obtain ⟨en, hen⟩ := Option.isSome_iff_exists.mp (hR.declared e he)
  refine ⟨en, by rw [← hc.enumeration? e]; exact hen, ?_⟩
  rw [Catalog.outlines, if_pos he, hen]
  rfl

theorem result_modelWithin_defined {seen : List String} {name : String} {w : Workbench}
    (hnot : seen.contains name = false) (hdef : (w.definitions.find? (.model name)).isSome)
    (depth : Nat) :
    (modelWithin c (depth + 1) seen name).result w =
      (pure (.reference (.model name)) : Shaping Shape).result w := by
  rw [modelWithin, result_bind, result_get]
  simp only [hnot, hdef, Bool.or_true, if_true]

theorem result_modelWithin_known {seen : List String} {name : String} {w : Workbench}
    (hnot : seen.contains name = false) (hdef : ¬ (w.definitions.find? (.model name)).isSome)
    {l : Layout} (hl : Entries.get? c.layouts name = some l) (depth : Nat) :
    (modelWithin c (depth + 1) seen name).result w = (unpack l).result w := by
  rw [modelWithin, result_bind, result_get]
  simp only [hnot, hdef, hl, Bool.or_self, Bool.false_eq_true, if_false]

theorem result_modelWithin_undeclared {seen : List String} {name : String} {w : Workbench}
    (hnot : seen.contains name = false) (hdef : ¬ (w.definitions.find? (.model name)).isSome)
    (hl : Entries.get? c.layouts name = none) (hr : c.model? name = none) (depth : Nat) :
    (modelWithin c (depth + 1) seen name).result w =
      (throw .unresolved : Shaping Shape).result w := by
  rw [modelWithin, result_bind, result_get]
  simp only [hnot, hdef, hl, hr, Bool.or_self, Bool.false_eq_true, if_false]

theorem result_modelWithin {seen : List String} {name : String} {w : Workbench}
    (hnot : seen.contains name = false) (hdef : ¬ (w.definitions.find? (.model name)).isSome)
    {r : Record TypeExpr} (hl : Entries.get? c.layouts name = none) (hr : c.model? name = some r)
    (depth : Nat) : (modelWithin c (depth + 1) seen name).result w =
      (if Config.readsNames r.config then do
        let fields ← shapeFields c (modelWithin c depth (name :: seen))
          (Config.allowsSealed r.config) r.fields
        define (.model name) (.record (.model name)
          { name := r.name, doc := r.doc, config := r.config, fields })
      else throw .nameless : Shaping Shape).result w := by
  rw [modelWithin, result_bind, result_get]
  simp only [hnot, hdef, hl, hr, Bool.or_self, Bool.false_eq_true, if_false]
  split <;> rfl

theorem works_opened (hR : c.Region E S rank) (hc : c'.Within c) {k : Nat} {name : String}
    (hS : S name) (hk : rank name < k) {r : Record TypeExpr} (hr : c.model? name = some r)
    (hout : c.Outlined name) {openModel : String → Shaping Shape}
    (hopen : ∀ m, S m → rank m < rank name → ∀ w : Workbench,
      w.Good (c.outlines E (Catalog.Below S rank k)) →
        Works (c.outlines E (Catalog.Below S rank k)) (Bad c' S) w (openModel m)
          (.ok (.reference (.model m))) (Laid (c.outlines E (Catalog.Below S rank k))))
    {w : Workbench} (hw : w.Good (c.outlines E (Catalog.Below S rank k))) :
    Works (c.outlines E (Catalog.Below S rank k)) (Bad c' S) w
      (if Config.readsNames r.config then do
        let fields ← shapeFields c' openModel (Config.allowsSealed r.config) r.fields
        define (.model name) (.record (.model name)
          { name := r.name, doc := r.doc, config := r.config, fields })
      else throw .nameless)
      (.ok (.reference (.model name))) (Laid (c.outlines E (Catalog.Below S rank k))) := by
  obtain ⟨r', os, hr', hos⟩ := hout
  obtain rfl : r = r' := Option.some.inj (hr.symm.trans hr')
  split
  · have hexp : (.ok (.reference (.model name)) : Except Stop Shape) =
        (outlineFields (Config.allowsSealed r.config) r.fields >>= fun _ =>
          .ok (.reference (.model name))) := by
      rw [hos]
      rfl
    rw [hexp]
    refine (works_fields hR hc hS hr (fun h => h.1 rfl) hopen hw).expecting.bind
      fun w₁ fields os' hw₁ _ hends => ?_
    obtain ⟨hlaid, hos'⟩ := hends
    obtain rfl : os = os' := Except.ok.inj (hos.symm.trans hos')
    exact works_define hw₁ rfl
      (agrees_record hlaid (Catalog.outlines_model ⟨hS, hk⟩ hr hos)) (defined_record hlaid)
  · exact Works.of_bad hw (bad_of_ne (fun h => by cases h) fun h => by cases h)

theorem works_modelWithin (hR : c.Region E S rank) (hc : c'.Within c) {k : Nat}
    (hout : ∀ name, S name → rank name < k → c.Outlined name)
    (hstored : ∀ name l, S name → rank name < k → Entries.get? c'.layouts name = some l →
      c.Stores E S rank name l) (depth : Nat) :
    ∀ (seen : List String) (name : String), S name → rank name < k →
      (∀ m ∈ seen, rank name < rank m) → (c'.unseen seen).length < depth →
      ∀ w : Workbench, w.Good (c.outlines E (Catalog.Below S rank k)) →
        Works (c.outlines E (Catalog.Below S rank k)) (Bad c' S) w (modelWithin c' depth seen name)
          (.ok (.reference (.model name))) (Laid (c.outlines E (Catalog.Below S rank k))) := by
  induction depth with
  | zero => intro seen name _ _ _ hlt; omega
  | succ depth ih =>
    intro seen name hS hk hseen hdepth w hw
    have hnot : seen.contains name = false := by
      by_contra h
      have hm := hseen name (List.contains_iff_mem.mp (by simpa using h))
      omega
    have hknown : (Shape.reference (.model name)).Agrees
        (c.outlines E (Catalog.Below S rank k)) := by
      rw [Shape.Agrees]
      exact Catalog.isSome_outlines ⟨hS, hk⟩ (hout name hS hk)
    by_cases hdef : (w.definitions.find? (.model name)).isSome
    · exact Works.of_result (.pure hw ⟨rfl, hknown, rfl, by simpa using hdef⟩)
        (result_modelWithin_defined hnot hdef depth)
    obtain ⟨r, hr, -⟩ := hR.within name hS
    cases hl : Entries.get? c'.layouts name with
    | some l =>
      obtain ⟨_, _, -, -, -, hgood, hΔ⟩ := (hstored name l hS hk hl).goodFor
        (Q := Catalog.Below S rank k) (fun m hm => ⟨hm.1, by have := hm.2; omega⟩) ⟨hS, hk⟩
      exact (works_unpack hgood hΔ hw).of_result (result_modelWithin_known hnot hdef hl depth)
    | none =>
      cases hr' : c'.model? name with
      | none =>
        refine Works.of_result (Works.of_bad hw ⟨fun h => (by cases h), fun hall => ?_⟩)
          (result_modelWithin_undeclared hnot hdef hl hr' depth)
        have := hall name hS
        rw [hr'] at this
        cases this
      | some r' =>
        have hreq : r' = r := Option.some.inj ((hc.model? hr').symm.trans hr)
        subst hreq
        refine Works.of_result (works_opened hR hc hS hk hr (hout name hS hk)
          (fun m hm hlt w hw => ?_) hw) (result_modelWithin hnot hdef hl hr' depth)
        refine ih (name :: seen) m hm (by omega) (fun m' hm' => ?_) ?_ w hw
        · rcases List.mem_cons.mp hm' with rfl | hm'
          · exact hlt
          · exact Nat.lt_trans hlt (hseen m' hm')
        · have hopen : c'.open? seen name = some r' := by
            rw [Catalog.open?, hnot]
            exact hr'
          have := Catalog.length_unseen_lt hopen
          omega

theorem good_empty {Δ : Outlines} (remarks : Remarks) (made : Nat) :
    ({ remarks, made } : Workbench).Good Δ :=
  ⟨nofun, nofun⟩

end Shaping

namespace Catalog

theorem work_eq (c : Catalog) (type : TypeExpr) :
    c.work type = match (c.shape type).result { remarks := c.remarks } with
      | (.error stop, w) => (.error stop, w)
      | (.ok s, w) =>
        (if (Layout.tidy w.remarks.has w.definitions s).isSound then
          .ok (Layout.tidy w.remarks.has w.definitions s) else .error .unfit, w) := by
  rw [work, ExceptT.result]
  rcases ExceptT.run (c.shape type) { remarks := c.remarks } with ⟨e | s, w⟩ <;> rfl

/-- The layout of a model whose layout is not known: its fields are worked out while it is open. -/
theorem work_model_eq {name : String} (hl : Entries.get? c.layouts name = none)
    {r : Record TypeExpr} (hr : c.model? name = some r) :
    (c.work (.model name)).1 =
      if Config.readsNames r.config then
        match (Shaping.shapeFields c (Shaping.modelWithin c c.models.length [name])
          (Config.allowsSealed r.config) r.fields).result { remarks := c.remarks } with
        | (.error stop, _) => .error stop
        | (.ok fields, w) =>
          let l := Layout.tidy w.remarks.has (w.definitions.put (.model name)
            (.record (.model name) (outlined r fields))) (.reference (.model name))
          if l.isSound then .ok l else .error .unfit
      else .error .nameless := by
  rw [work_eq, shape, Shaping.shapeOf, Shaping.result_modelWithin (w := { remarks := c.remarks })
    List.contains_nil Bool.false_ne_true hl hr c.models.length]
  by_cases hreads : Config.readsNames r.config = true
  · rw [if_pos hreads, if_pos hreads, ExceptT.result_bind]
    rcases (Shaping.shapeFields c (Shaping.modelWithin c c.models.length [name])
      (Config.allowsSealed r.config) r.fields).result { remarks := c.remarks }
      with ⟨e | fields, w⟩ <;> rfl
  · rw [if_neg hreads, if_neg hreads]
    rfl

theorem works_fields_of_model (hR : c.Region E S rank) (hc : c'.Within c) {name : String}
    (hS : S name) (hout : ∀ m, S m → rank m < rank name → c.Outlined m)
    (hstored : ∀ m l, S m → rank m < rank name → Entries.get? c'.layouts m = some l →
      c.Stores E S rank m l) {r : Record TypeExpr} (hr : c'.model? name = some r) :
    Shaping.Works (c.outlines E (Below S rank (rank name))) (Shaping.Bad c' S)
      { remarks := c'.remarks }
      (Shaping.shapeFields c' (Shaping.modelWithin c' c'.models.length [name])
        (Config.allowsSealed r.config) r.fields)
      (Shaping.outlineFields (Config.allowsSealed r.config) r.fields)
      fun w => List.Forall₂ (Shaping.LaidField (c.outlines E (Below S rank (rank name))) w) := by
  refine Shaping.works_fields hR hc hS (hc.model? hr) (fun h => h.1 rfl) (fun m hm hlt w hw => ?_)
    (Shaping.good_empty _ _)
  refine Shaping.works_modelWithin hR hc hout hstored _ _ m hm hlt (fun m' hm' => ?_) ?_ w hw
  · rw [List.mem_singleton.mp hm']
    exact hlt
  · have hopen : c'.open? [] name = some r := hr
    have h := Catalog.length_unseen_lt hopen
    have h' : (c'.unseen []).length ≤ c'.models.length := List.length_filter_le _ _
    omega

/-- Working out a model of a region gives its layout, or stops at something else than a model that
is not declared where all are. -/
theorem work_model (hR : c.Region E S rank) (hc : c'.Within c) {name : String} (hS : S name)
    (hout : ∀ m, S m → rank m < rank name → c.Outlined m)
    (hstored : ∀ m l, S m → rank m < rank name → Entries.get? c'.layouts m = some l →
      c.Stores E S rank m l)
    (hl : Entries.get? c'.layouts name = none) {r : Record TypeExpr}
    (hr : c'.model? name = some r) :
    (∀ l, (c'.work (.model name)).1 = .ok l → c.Outlined name ∧ c.Stores E S rank name l) ∧
      ((∀ m, S m → (c'.model? m).isSome) → (c'.work (.model name)).1 ≠ .error .unresolved) := by
  obtain ⟨hgood, -, hok, herror⟩ := works_fields_of_model hR hc hS hout hstored hr
  rw [work_model_eq hl hr]
  by_cases hreads : Config.readsNames r.config = true
  · rw [if_pos hreads]
    rcases hrun : (Shaping.shapeFields c' (Shaping.modelWithin c' c'.models.length [name])
      (Config.allowsSealed r.config) r.fields).result { remarks := c'.remarks }
      with ⟨e | fields, w⟩
    · rw [hrun] at herror
      refine ⟨nofun, fun hall h => ?_⟩
      cases h
      rcases herror _ rfl with hb | ⟨-, hne⟩
      · exact hb.2 hall rfl
      · exact hne rfl
    · rw [hrun] at hgood hok
      obtain ⟨os, hos, hlaid⟩ := hok fields rfl
      have hnew : c.outlines E (Below S rank (rank name)) (Key.model name).owner = none := by
        rw [Key.model, outlines, if_neg fun h => Nat.lt_irrefl _ h.2]
      have hlayout := Shaping.good_define w.remarks.has hgood hnew (r := r) hlaid
      have hrc := hc.model? hr
      dsimp only
      refine ⟨fun l hl' => ?_, fun _ h => ?_⟩
      · split at hl'
        · rename_i hsound
          cases hl'
          exact ⟨⟨r, os, hrc, hos⟩, ⟨r, os, hrc, hos, hreads, hlayout⟩, hsound⟩
        · cases hl'
      · split at h <;> cases h
  · rw [if_neg hreads]
    exact ⟨nofun, fun _ h => by cases h⟩

/-! ## One step of a declaration -/

/-- Whether the layouts that are known of the models of a region below a rank are good. -/
def Keeps (c : Catalog) (E S : String → Prop) (rank : String → Nat) (k : Nat) (c' : Catalog) : Prop :=
  ∀ name l, S name → rank name < k → Entries.get? c'.layouts name = some l →
    c.Stores E S rank name l

theorem Keeps.mono {k k' : Nat} (h : c.Keeps E S rank k c') (hk : k' ≤ k) :
    c.Keeps E S rank k' c' := fun name l hS hlt => h name l hS (Nat.lt_of_lt_of_le hlt hk)

def forget (c : Catalog) (name : String) : Catalog :=
  { c with layouts := Entries.without c.layouts name }

theorem learn_eq_ok {edition : Nat} {name : String} (h : c.learn edition name = .ok c') :
    c'.models = c.models ∧ c'.enumerations = c.enumerations ∧
      ((∃ l, ((c.forget name).work (.model name)).1 = .ok l ∧
          ∃ top, c'.layouts = Entries.put c.layouts name { l with top } ∧
            ∀ key r, l.top = .record key r → top = l.top) ∨
        ((c.forget name).work (.model name)).1 = .error .unresolved ∧
          c'.layouts = Entries.without c.layouts name) := by
  rw [learn] at h
  rw [forget]
  rcases hw : ({ c with layouts := Entries.without c.layouts name } : Catalog).work (.model name)
    with ⟨e | l, w⟩
  · rw [hw] at h
    cases e <;> first
      | (cases h; exact ⟨rfl, rfl, .inr ⟨rfl, rfl⟩⟩)
      | cases h
  · rw [hw] at h
    cases h
    refine ⟨rfl, rfl, .inl ⟨l, rfl, _, rfl, fun key r hr => ?_⟩⟩
    rw [hr]

theorem get?_forget (c : Catalog) (name other : String) :
    Entries.get? (c.forget name).layouts other =
      if other = name then none else Entries.get? c.layouts other := by
  rw [forget, Entries.get?_without]

theorem within_of_eq (hm : c'.models = c.models) (he : c'.enumerations = c.enumerations) :
    c.Within c' := ⟨⟨[], by rw [hm, List.append_nil]⟩, he⟩

theorem learn_spec {c₀ c₁ : Catalog} (hR : c.Region E S rank) (hc : c₀.Within c) {edition : Nat}
    {name : String} (h : c₀.learn edition name = .ok c₁) (hdecl : (c₀.model? name).isSome)
    (hS : S name) (hout : ∀ m, S m → rank m < rank name → c.Outlined m)
    (hkeeps : c.Keeps E S rank (rank name) c₀) :
    (∀ l, Entries.get? c₁.layouts name = some l → c.Stores E S rank name l) ∧
      ((∀ m, S m → (c₀.model? m).isSome) →
        c.Outlined name ∧ (Entries.get? c₁.layouts name).isSome) := by
  obtain ⟨r, hr⟩ := Option.isSome_iff_exists.mp hdecl
  have hnone : Entries.get? (c₀.forget name).layouts name = none := by
    rw [get?_forget, if_pos rfl]
  have hstored : ∀ m l, S m → rank m < rank name →
      Entries.get? (c₀.forget name).layouts m = some l → c.Stores E S rank m l := by
    intro m l hSm hlt hl
    rw [get?_forget] at hl
    split at hl
    · cases hl
    · exact hkeeps m l hSm hlt hl
  have hforget : (c₀.forget name).Within c := ⟨hc.models, hc.enumerations⟩
  obtain ⟨hok, hne⟩ := work_model hR hforget hS hout hstored hnone (r := r) hr
  obtain ⟨-, -, ⟨l, hl, top, hlayouts, htop⟩ | ⟨hun, hlayouts⟩⟩ := learn_eq_ok h
  · obtain ⟨houtlined, hstores⟩ := hok l hl
    obtain ⟨_, _, -, -, -, hgood⟩ := hstores.good
    obtain ⟨fields, hfields, -⟩ := hgood.top
    rw [htop _ _ hfields] at hlayouts
    rw [hlayouts, Entries.get?_put, if_pos rfl]
    refine ⟨fun l' hl' => ?_, fun _ => ⟨houtlined, rfl⟩⟩
    cases hl'
    exact hstores
  · rw [hlayouts, Entries.get?_without, if_pos rfl]
    exact ⟨nofun, fun hall => absurd hun (hne hall)⟩

theorem get?_learn {c₀ c₁ : Catalog} {edition : Nat} {name other : String}
    (h : c₀.learn edition name = .ok c₁) (hne : name ≠ other) :
    Entries.get? c₁.layouts other = Entries.get? c₀.layouts other := by
  obtain ⟨-, -, ⟨l, -, top, hlayouts, -⟩ | ⟨-, hlayouts⟩⟩ := learn_eq_ok h
  · rw [hlayouts, Entries.get?_put, if_neg hne]
  · rw [hlayouts, Entries.get?_without, if_neg (Ne.symm hne)]

theorem keeps_learn {c₀ c₁ : Catalog} (hR : c.Region E S rank) (hc : c₀.Within c) {edition : Nat}
    {name : String} (h : c₀.learn edition name = .ok c₁) (hdecl : (c₀.model? name).isSome) {k : Nat}
    (hout : ∀ m, S m → rank m < k → c.Outlined m) (hkeeps : c.Keeps E S rank k c₀) :
    c.Keeps E S rank k c₁ := by
  intro m l hSm hlt hl
  by_cases heq : name = m
  · subst heq
    exact (learn_spec hR hc h hdecl hSm (fun m' hm' hlt' => hout m' hm' (by omega))
      (hkeeps.mono (by omega))).1 l hl
  · rw [get?_learn h heq] at hl
    exact hkeeps m l hSm hlt hl

/-! ## All declarations -/

theorem add_eq_ok {c₀ c₁ : Catalog} {d : Declaration} (h : c₀.add d = .ok c₁) :
    ∃ r, d.record c₀.models = .ok r ∧
      ({ c₀ with models := c₀.models ++ [r] } : Catalog).learn 0 r.name = .ok c₁ := by
  rw [add] at h
  exact exists_of_bind_eq_ok h

theorem within_add {c₀ c₁ : Catalog} {d : Declaration} (h : c₀.add d = .ok c₁) :
    c₀.Within c₁ := by
  obtain ⟨r, -, hlearn⟩ := add_eq_ok h
  obtain ⟨hm, he, -⟩ := learn_eq_ok hlearn
  exact ⟨⟨[r], hm⟩, he⟩

theorem isSome_model?_of_mem {name : String} (h : name ∈ c.models.map Record.name) :
    (c.model? name).isSome := by
  obtain ⟨r, hr, rfl⟩ := List.mem_map.mp h
  rw [model?, List.find?_isSome]
  exact ⟨r, hr, by simp⟩

theorem foldlM_cons_eq_ok {α : Type} {f : Catalog → α → Except Fault Catalog} {a : α} {rest : List α}
    {c₀ c₁ : Catalog} (h : (a :: rest).foldlM f c₀ = .ok c₁) :
    ∃ c', f c₀ a = .ok c' ∧ rest.foldlM f c' = .ok c₁ := by
  rw [List.foldlM_cons] at h
  exact exists_of_bind_eq_ok h

theorem within_foldlM_add {ds : List Declaration} {c₀ c₁ : Catalog}
    (h : ds.foldlM add c₀ = .ok c₁) : c₀.Within c₁ := by
  induction ds generalizing c₀ with
  | nil =>
    cases h
    exact within_of_eq rfl rfl
  | cons d rest ih =>
    obtain ⟨c', hd, hrest⟩ := foldlM_cons_eq_ok h
    exact (within_add hd).trans (ih hrest)

theorem keeps_foldlM_add {ds : List Declaration} {c₀ c₁ : Catalog} (hR : c.Region E S rank) {k : Nat}
    (hout : ∀ m, S m → rank m < k → c.Outlined m) (h : ds.foldlM add c₀ = .ok c₁)
    (hc : c₁.Within c) (hkeeps : c.Keeps E S rank k c₀) : c.Keeps E S rank k c₁ := by
  induction ds generalizing c₀ with
  | nil =>
    cases h
    exact hkeeps
  | cons d rest ih =>
    obtain ⟨c', hd, hrest⟩ := foldlM_cons_eq_ok h
    refine ih hrest ?_
    obtain ⟨r, -, hlearn⟩ := add_eq_ok hd
    obtain ⟨hm, he, -⟩ := learn_eq_ok hlearn
    have hw : ({ c₀ with models := c₀.models ++ [r] } : Catalog).Within c :=
      ((within_of_eq hm he).trans (within_foldlM_add hrest)).trans hc
    exact keeps_learn hR hw hlearn (isSome_model?_of_mem (by simp)) hout hkeeps

theorem same_foldlM_learn {names : List String} {edition : Nat} {c₀ c₁ : Catalog}
    (h : names.foldlM (learn edition) c₀ = .ok c₁) :
    c₁.models = c₀.models ∧ c₁.enumerations = c₀.enumerations := by
  induction names generalizing c₀ with
  | nil =>
    cases h
    exact ⟨rfl, rfl⟩
  | cons name rest ih =>
    obtain ⟨c', hlearn, hrest⟩ := foldlM_cons_eq_ok h
    obtain ⟨hm, he, -⟩ := learn_eq_ok hlearn
    exact ⟨(ih hrest).1.trans hm, (ih hrest).2.trans he⟩

/-- The models are added one by one, and then all of them are worked out again. -/
theorem declare_eq_ok {ds : List Declaration} {es : List Enumeration} (h : declare ds es = .ok c) :
    ∃ c₁, ds.foldlM add { enumerations := es } = .ok c₁ ∧
      (c.models.map Record.name).foldlM (learn 1) c₁ = .ok c ∧
      c.models = c₁.models ∧ c.enumerations = c₁.enumerations := by
  rw [declare] at h
  obtain ⟨c₁, hadd, hlearn⟩ := exists_of_bind_eq_ok h
  have hsame := same_foldlM_learn hlearn
  rw [← hsame.1] at hlearn
  exact ⟨c₁, hadd, hlearn, hsame⟩

/-- When the models are worked out again, all of them are declared. -/
theorem foldlM_learn {names : List String} {c₀ c₁ : Catalog} (hR : c.Region E S rank)
    (hm : c₀.models = c.models) (he : c₀.enumerations = c.enumerations)
    (hnames : ∀ name ∈ names, (c.model? name).isSome)
    (h : names.foldlM (learn 1) c₀ = .ok c₁) {k : Nat}
    (hout : ∀ m, S m → rank m < k → c.Outlined m) (hkeeps : c.Keeps E S rank k c₀) :
    c.Keeps E S rank k c₁ ∧
      ∀ name, S name → rank name ≤ k →
        (name ∈ names → c.Outlined name) ∧
        (name ∈ names ∨ (Entries.get? c₀.layouts name).isSome →
          (Entries.get? c₁.layouts name).isSome) := by
  induction names generalizing c₀ with
  | nil =>
    cases h
    exact ⟨hkeeps, fun name _ _ => ⟨nofun, fun h => h.elim nofun id⟩⟩
  | cons n rest ih =>
    obtain ⟨c', hd, hrest⟩ := foldlM_cons_eq_ok h
    obtain ⟨hm', he', -⟩ := learn_eq_ok hd
    have hc : c₀.Within c := within_of_eq hm.symm he.symm
    have hsome : ∀ m, (c₀.model? m).isSome = (c.model? m).isSome := by
      intro m
      rw [model?, model?, hm]
    have hdecl : (c₀.model? n).isSome := by
      rw [hsome]
      exact hnames n (List.mem_cons_self ..)
    obtain ⟨hk, hrest'⟩ := ih (hm'.trans hm) (he'.trans he)
      (fun m hmem => hnames m (List.mem_cons_of_mem _ hmem)) hrest
      (keeps_learn hR hc hd hdecl hout hkeeps)
    refine ⟨hk, fun name hS hlt => ?_⟩
    obtain ⟨h₁, h₂⟩ := hrest' name hS hlt
    by_cases heq : n = name
    · subst heq
      have hspec := (learn_spec hR hc hd hdecl hS (fun m hm hlt' => hout m hm (by omega))
        (hkeeps.mono hlt)).2 fun m hSm => by
          obtain ⟨r, hr, -⟩ := hR.within m hSm
          rw [hsome, hr]
          rfl
      exact ⟨fun _ => hspec.1, fun _ => h₂ (.inr hspec.2)⟩
    · refine ⟨fun hmem => ?_, fun hmem => h₂ ?_⟩
      · rcases List.mem_cons.mp hmem with rfl | hmem
        · exact absurd rfl heq
        · exact h₁ hmem
      · rcases hmem with hmem | hmem
        · rcases List.mem_cons.mp hmem with rfl | hmem
          · exact absurd rfl heq
          · exact .inl hmem
        · exact .inr (by rwa [get?_learn hd heq])

theorem Region.mem_names (hR : c.Region E S rank) {name : String} (hS : S name) :
    name ∈ c.models.map Record.name := by
  obtain ⟨r, hr, -⟩ := hR.within name hS
  have hn : r.name = name := by simpa using List.find?_some hr
  exact List.mem_map.mpr ⟨r, List.mem_of_find?_eq_some hr, hn⟩

/-- Where the models of a region below a rank have outlines, those up to the rank have outlines and
layouts that are known. -/
theorem Region.stored_below {ds : List Declaration} {es : List Enumeration}
    (hR : c.Region E S rank) (h : declare ds es = .ok c) {k : Nat}
    (hout : ∀ m, S m → rank m < k → c.Outlined m) :
    c.Keeps E S rank k c ∧
      ∀ m, S m → rank m ≤ k → c.Outlined m ∧ (Entries.get? c.layouts m).isSome := by
  obtain ⟨c₁, hadd, hlearn, hm, he⟩ := declare_eq_ok h
  have hkeeps : c.Keeps E S rank k c₁ := keeps_foldlM_add hR hout hadd (within_of_eq hm he) nofun
  obtain ⟨hk, hall⟩ := foldlM_learn hR hm.symm he.symm (fun _ => isSome_model?_of_mem) hlearn hout
    hkeeps
  refine ⟨hk, fun m hS hle => ?_⟩
  obtain ⟨houtlined, hsome⟩ := hall m hS hle
  exact ⟨houtlined (hR.mem_names hS), hsome (.inl (hR.mem_names hS))⟩

/-- Once all is declared, every model of a region has an outline, and a good and sound layout. -/
theorem Region.stored {ds : List Declaration} {es : List Enumeration} (hR : c.Region E S rank)
    (h : Catalog.declare ds es = .ok c) {name : String} (hS : S name) :
    c.Outlined name ∧ ∃ l, Entries.get? c.layouts name = some l ∧ c.Stores E S rank name l := by
  -- outlines below a rank give outlines at that rank
  have hout : ∀ k m, S m → rank m < k → c.Outlined m := by
    intro k
    induction k with
    | zero => intro m _ hlt; omega
    | succ k ih => exact fun m hSm hlt => ((hR.stored_below h ih).2 m hSm (by omega)).1
  obtain ⟨hk, hall⟩ := hR.stored_below h (hout (rank name + 1))
  obtain ⟨houtlined, hsome⟩ := hall name hS (by omega)
  obtain ⟨l, hl⟩ := Option.isSome_iff_exists.mp hsome
  exact ⟨houtlined, l, hl, hk name l hS (by omega) hl⟩

/-- The records of a region are sound once its layouts are. -/
theorem soundOutlines
    (hall : ∀ name, S name → c.Outlined name ∧
      ∃ l, Entries.get? c.layouts name = some l ∧ c.Stores E S rank name l) :
    Shape.SoundOutlines (c.outlines E S) := by
  intro o r ho
  cases o with
  | model name =>
    have hS : S name := by
      by_contra hn
      rw [outlines, if_neg hn] at ho
      cases ho
    obtain ⟨-, l, -, hl⟩ := hall name hS
    obtain ⟨r', os, -, -, -, hgood, hΔ⟩ := hl.goodFor (Q := S) (fun m hm => hm.1) hS
    rw [ho] at hΔ
    cases hΔ
    obtain ⟨fields, htop, hmap, -⟩ := hgood.top
    have hsound := hl.sound
    rw [Layout.isSound, htop, Bool.and_eq_true, Shape.isSound, Bool.and_eq_true] at hsound
    refine ⟨hsound.1.1, Shape.areSoundFields_iff.mpr fun f hf => ?_⟩
    rw [← hmap] at hf
    obtain ⟨g, hg, rfl⟩ := List.mem_map.mp hf
    exact Shape.isSound_folded g.type (Shape.areSoundFields_iff.mp hsound.1.2 g hg)
  | enumeration name =>
    rw [outlines] at ho
    split at ho
    · rw [Option.map_eq_some_iff] at ho
      obtain ⟨e, -, he⟩ := ho
      cases he
    · cases ho
  | made name number => cases ho

end Catalog

/-! ## Records that are put together -/

namespace Shaping

theorem result_assemble {name : String} {doc : Option String} {config : Config}
    {fields : Shaping (List (Field Shape))} {remarks : Remarks} {made : List (Field Shape)}
    {w : Workbench} (hreads : Config.readsNames config = true)
    (h : fields.result { remarks, made := 1 } = (.ok made, w)) :
    (assemble name doc config fields).result { remarks } =
      (if (Layout.tidy w.remarks.has
          (w.definitions.put { owner := .made name 0 } (.record { owner := .made name 0 }
            { name, doc, config, fields := made }))
          (.reference { owner := .made name 0 })).isSound then
        unpack (Layout.tidy w.remarks.has
          (w.definitions.put { owner := .made name 0 } (.record { owner := .made name 0 }
            { name, doc, config, fields := made })) (.reference { owner := .made name 0 }))
      else throw .unfit).result { w with definitions := [] } := by
  rw [assemble]
  simp only [hreads, if_true, define, result_bind, result_get, result_set, result_tryCatch, h,
    result_modify, result_pure]

end Shaping

namespace Catalog

/-- A model of a region has a good layout, which is the one of its record. -/
theorem Region.layOut_model {ds : List Declaration} {es : List Enumeration}
    (hR : c.Region E S rank) (h : Catalog.declare ds es = .ok c) {name : String} (hS : S name) :
    ∃ l r fields, c.layOut (.model name) = .ok l ∧ c.model? name = some r ∧
      Shaping.outlineFields (Config.allowsSealed r.config) r.fields = .ok fields ∧
      Config.readsNames r.config = true ∧ Config.isSound r.config = true ∧
      Shape.areSoundFields r.config fields = true ∧
      l.Good (c.outlines E (Below S rank (rank name))) (.model name) (outlined r fields) := by
  have hall : ∀ name, S name → c.Outlined name ∧
      ∃ l, Entries.get? c.layouts name = some l ∧ c.Stores E S rank name l :=
    fun name hS => hR.stored h hS
  obtain ⟨-, l, hl, hstores⟩ := hall name hS
  obtain ⟨r, fields, hr, hf, hreads, hgood⟩ := hstores.good
  obtain ⟨hconfig, hsound⟩ := soundOutlines hall (.model name) (outlined r fields)
    (outlines_model hS hr hf)
  exact ⟨l, r, fields, by rw [layOut, hl], hr, hf, hreads, hconfig, hsound, hgood⟩

end Catalog
end Procedoc
