import Procedoc.Proofs.Rendering.Parts
import Procedoc.Proofs.Shaping.Working

/-! # Sketches

A sketch is the input schema of a shape, given the labels of what it refers to: nothing is written
for it on a sheet (`Shape.sketch`).  It cites these labels only (`citesOnly_sketch`), and under other
labels it is the same but for the labels (`sketch_relabel`). -/
namespace Procedoc
set_option autoImplicit false
open ExceptT (result_pure result_throw result_get result_modify result_bind result_tryCatch)

/-! ## Computations that leave the sheet alone -/

namespace Writing
variable {α β : Type}

def outcome (x : Writing α) : Except Obstacle α := (x.result {}).1

/-- Whether a computation neither reads nor changes the sheet. -/
def Still (x : Writing α) : Prop := ∀ s : Sheet, x.result s = (x.outcome, s)

theorem still_pure (a : α) : Still (pure a : Writing α) := fun _ => rfl

theorem still_throw (o : Obstacle) : Still (throw o : Writing α) := fun _ => rfl

theorem Still.bind {x : Writing α} {f : α → Writing β} (hx : Still x) (hf : ∀ a, Still (f a)) :
    Still (x >>= f) := by
  intro s
  rw [outcome, result_bind, result_bind, hx s, hx {}]
  cases x.outcome with
  | error o => rfl
  | ok a =>
    dsimp only
    rw [hf a s, hf a {}]

theorem outcome_bind {x : Writing α} {f : α → Writing β} (hx : Still x) :
    (x >>= f).outcome = x.outcome >>= fun a => (f a).outcome := by
  rw [outcome, result_bind, hx {}]
  cases x.outcome <;> rfl

theorem Still.tryCatch {x : Writing α} {f : Obstacle → Writing α} (hx : Still x)
    (hf : ∀ o, Still (f o)) : Still (tryCatch x f) := by
  intro s
  rw [outcome, result_tryCatch, result_tryCatch, hx s, hx {}]
  cases x.outcome with
  | error o =>
    dsimp only
    rw [hf o s, hf o {}]
  | ok a => rfl

theorem result_attempt (x : Writing α) (s : Sheet) : (attempt x).result s =
    match x.result s with
    | (.ok a, s') => (.ok (some a), s')
    | (.error .indescribable, s') => (.ok none, s')
    | (.error o, s') => (.error o, s') := by
  rw [attempt, result_tryCatch, result_bind]
  rcases x.result s with ⟨o | a, s'⟩
  · cases o <;> rfl
  · rfl

section Entity
variable {key : Key} {side : Side} {s : Sheet}

theorem result_label (key : Key) (side : Side) (s : Sheet) :
    (label key side).result s = (.ok (s.withLabel key side).1, (s.withLabel key side).2) := rfl

theorem result_entity_of_written (body : Writing (Entries Json)) {written : String}
    (h : (s.labels.lookup (key, side)).filter (Entries.has s.definitions) = some written) :
    (entity key side body).result s = (.ok (referenceTo written), s) := by
  rw [entity, result_bind, result_get]
  simp only [h, result_pure]

/-- A definition that is not written yet is, unless it would only refer to itself; it gets its label
after those that its body gives. -/
theorem result_entity {body : Writing (Entries Json)}
    (h : (s.labels.lookup (key, side)).filter (Entries.has s.definitions) = none) :
    (entity key side body).result s = match body.result s with
      | (.error o, s₁) => (.error o, s₁)
      | (.ok e, s₁) => (.ok (referenceTo (s₁.withLabel key side).1),
          if Entries.get? e "$ref" != some (.str (definitionRef (s₁.withLabel key side).1)) then
            (s₁.withLabel key side).2.define (s₁.withLabel key side).1 e
          else (s₁.withLabel key side).2) := by
  rw [entity, result_bind, result_get]
  simp only [h]
  rw [result_bind]
  rcases body.result s with ⟨o | e, s₁⟩
  · rfl
  · dsimp only
    rw [result_bind, result_label]
    dsimp only
    split <;> rfl

end Entity

theorem still_mapM {f : α → Writing β} (hf : ∀ a, Still (f a)) (items : List α) :
    Still (items.mapM f) := by
  induction items with
  | nil =>
    rw [List.mapM_nil]
    exact still_pure []
  | cons a rest ih =>
    rw [List.mapM_cons]
    exact (hf a).bind fun b => ih.bind fun bs => still_pure (b :: bs)

theorem exists_of_mem_mapM {f : α → Writing β} (hf : ∀ a, Still (f a)) {items : List α}
    {bs : List β} (h : (items.mapM f).outcome = .ok bs) {b : β} (hb : b ∈ bs) :
    ∃ a ∈ items, (f a).outcome = .ok b := by
  induction items generalizing bs with
  | nil =>
    cases h
    cases hb
  | cons a rest ih =>
    rw [List.mapM_cons, outcome_bind (hf a)] at h
    obtain ⟨b', ha, h⟩ := exists_of_bind_eq_ok h
    rw [outcome_bind (still_mapM hf rest)] at h
    obtain ⟨bs', hr, h⟩ := exists_of_bind_eq_ok h
    cases h
    rcases List.mem_cons.mp hb with rfl | hb
    · exact ⟨a, List.mem_cons_self .., ha⟩
    · obtain ⟨a', ha', hb'⟩ := ih hr hb
      exact ⟨a', List.mem_cons_of_mem _ ha', hb'⟩

end Writing

open Writing (Still outcome still_pure still_throw still_mapM outcome_bind exists_of_mem_mapM)

theorem still_plainEntries (config : Config) (p : Plain) (bounds : List Bound) :
    Still (plainEntries config p bounds) := by
  cases p with
  | callable | sealed => exact still_throw _
  | _ => exact still_pure _

theorem still_writtenData (c : Catalog) (config : Config) (v : Value) :
    Still (writtenData c config v) := by
  rw [writtenData]
  split
  · exact still_pure _
  · exact still_throw _
  · exact still_throw _

theorem still_withDefault (c : Catalog) (config : Config) (f : Fallback) (e : Entries Json) :
    Still (withDefault c config f e) := by
  rw [withDefault]
  split
  · exact still_pure _
  · refine Still.tryCatch ((still_writtenData c config _).bind fun j => still_pure _) fun o => ?_
    cases o <;> first | exact still_pure _ | exact still_throw _

theorem outcome_withDefault_some {c : Catalog} {config : Config} {f : Fallback} {v : Value}
    (hv : f.value? = some v) (e : Entries Json) : (withDefault c config f e).outcome =
      match c.dataIn (Config.dataForm config) v with
      | .ok j => .ok (Entries.put e "default" j)
      | .error .undecodableOctets => .error .undecodable
      | .error _ => .ok e := by
  rw [withDefault, hv]
  dsimp only
  rw [outcome, result_tryCatch, result_bind, writtenData]
  cases c.dataIn (Config.dataForm config) v with
  | ok j => rfl
  | error fault => cases fault <;> rfl

theorem outcome_withDefault (c : Catalog) (config : Config) (f : Fallback) :
    (∃ o, ∀ e, (withDefault c config f e).outcome = .error o) ∨
      (∀ e, (withDefault c config f e).outcome = .ok e) ∨
      ∃ v j, f.value? = some v ∧ c.dataIn (Config.dataForm config) v = .ok j ∧
        ∀ e, (withDefault c config f e).outcome = .ok (Entries.put e "default" j) := by
  cases hv : f.value? with
  | none =>
    refine .inr (.inl fun e => ?_)
    rw [withDefault, hv]
    rfl
  | some v =>
    cases hd : c.dataIn (Config.dataForm config) v with
    | ok j =>
      refine .inr (.inr ⟨v, j, rfl, hd, fun e => ?_⟩)
      rw [outcome_withDefault_some hv, hd]
    | error fault =>
      by_cases hf : fault = .undecodableOctets
      · refine .inl ⟨.undecodable, fun e => ?_⟩
        rw [outcome_withDefault_some hv, hd, hf]
      · refine .inr (.inl fun e => ?_)
        rw [outcome_withDefault_some hv, hd]
        cases fault <;> first | rfl | exact absurd rfl hf

/-! ## Sketches of shapes -/

/-- A schema by itself, and none where nothing describes it. -/
def drawn : Except Obstacle (Entries Json) → Except Obstacle (List (Entries Json))
  | .ok e => .ok [e]
  | .error .indescribable => .ok []
  | .error o => .error o

theorem mem_of_drawn {x : Except Obstacle (Entries Json)} {es : List (Entries Json)}
    (h : drawn x = .ok es) {e : Entries Json} (he : e ∈ es) : x = .ok e := by
  cases x with
  | ok e' =>
    cases h
    rw [List.mem_singleton.mp he]
  | error o =>
    cases o <;> cases h
    cases he

namespace Shape

mutual
/-- The schema of a shape inside a model with settings, for inputs, given labels. -/
def sketch (c : Catalog) (label : Key → String) (config : Config) :
    Shape → Except Obstacle (Entries Json)
  | plain p bounds => (plainEntries config p bounds).outcome
  | literal values => do return valueSet (← (values.mapM (writtenData c [])).outcome)
  | container k item bounds => do
    let shown := listOf (.obj (← sketch c label config item)) k.isDistinct
    return Entries.override shown (Grip.items.shown bounds)
  | tuple items bounds => do
    return Entries.override (tupleOf (← sketchAll c label config items)) (Grip.items.shown bounds)
  | dict k v bounds => do
    let key ← sketch c label config k
    let shown := mappingOf key (← sketch c label config v)
    return Entries.override shown (Grip.mapping.shown bounds)
  | union members => do return unionEntries (← sketchSome c label config members)
  | nullable inner => do return orNull (← sketch c label config inner)
  | guarded inner | chained inner _ => sketch c label config inner
  | replaced _ _ | concealed => .ok []
  | defaulted inner fallback => do
    (withDefault c config fallback (← sketch c label config inner)).outcome
  | reference key | record key _ | enumeration key _ => .ok (referenceTo (label key))
  | shared _ => .error .indescribable
  | noted inner notes => do return notes.onto (← sketch c label config inner)

def sketchAll (c : Catalog) (label : Key → String) (config : Config) :
    List Shape → Except Obstacle (List (Entries Json))
  | [] => .ok []
  | s :: rest => do
    let e ← sketch c label config s
    return e :: (← sketchAll c label config rest)

/-- The schemas of the shapes of a list that have one. -/
def sketchSome (c : Catalog) (label : Key → String) (config : Config) :
    List Shape → Except Obstacle (List (Entries Json))
  | [] => .ok []
  | s :: rest => do
    let es ← drawn (sketch c label config s)
    return es ++ (← sketchSome c label config rest)
end

/-- The schema of a property, what repeats the definition that it refers to included. -/
def sketchProperty (c : Catalog) (config : Config) (f : Facts) (property : String)
    (wantsTitle : Bool) (shown : Entries Json) : Except Obstacle (Entries Json) := do
  let e := f.notes.onto (← (withDefault c config f.fallback shown).outcome)
  return if wantsTitle && !Entries.has e "title" then
    Entries.put e "title" (.str (Text.label property))
  else e

/-- The property that a field makes, given labels. -/
def sketchField (c : Catalog) (label : Key → String) (config : Config) (f : Field Shape) :
    Except Obstacle Property := do
  let property := propertyName .input config f
  let shown ← sketch c label config f.type
  let schema ← sketchProperty c config f.facts property f.type.wantsTitle shown
  return ⟨property, isRequired .input config f.facts, schema⟩

def sketchFields (c : Catalog) (label : Key → String) (config : Config)
    (fields : List (Field Shape)) : Except Obstacle (List Property) :=
  fields.mapM (sketchField c label config)

variable {c : Catalog} {label label' : Key → String} {config : Config}

mutual
theorem sketch_folded : (s : Shape) → s.folded.sketch c label config = s.sketch c label config
  | container _ inner _ | nullable inner | guarded inner | chained inner _ | defaulted inner _
  | noted inner _ => by rw [folded, sketch, sketch, sketch_folded inner]
  | tuple items _ => by rw [folded, sketch, sketch, sketchAll_folded items]
  | union items => by rw [folded, sketch, sketch, sketchSome_folded items]
  | dict a b _ => by rw [folded, sketch, sketch, sketch_folded a, sketch_folded b]
  | replaced _ _ | record _ _ | enumeration _ _ | reference _ | shared _ | plain _ _ | literal _
  | concealed => rfl

theorem sketchAll_folded : (shapes : List Shape) →
    sketchAll c label config (foldedList shapes) = sketchAll c label config shapes
  | [] => rfl
  | s :: rest => by
    rw [foldedList, sketchAll, sketchAll, sketch_folded s, sketchAll_folded rest]

theorem sketchSome_folded : (shapes : List Shape) →
    sketchSome c label config (foldedList shapes) = sketchSome c label config shapes
  | [] => rfl
  | s :: rest => by
    rw [foldedList, sketchSome, sketchSome, sketch_folded s, sketchSome_folded rest]
end

theorem wantsTitle_folded (s : Shape) : s.folded.wantsTitle = s.wantsTitle := by
  induction s using Shape.wantsTitle.induct <;> simp_all [folded, wantsTitle]
  cases ‹Shape› <;> simp_all [folded, wantsTitle]

theorem sketchField_folded (f : Field Shape) :
    sketchField c label config (foldedField f) = sketchField c label config f := by
  rw [sketchField, sketchField, foldedField]
  dsimp only
  rw [sketch_folded, wantsTitle_folded]
  rfl

theorem sketchFields_folded (fields : List (Field Shape)) :
    sketchFields c label config (fields.map foldedField) = sketchFields c label config fields := by
  rw [sketchFields, sketchFields, List.mapM_map]
  congr 1
  funext f
  exact sketchField_folded f

/-! ## What sketches cite -/

end Shape

/-- Whether the data of a value never reads as a reference. -/
def InertValue (c : Catalog) (v : Value) : Prop :=
  ∀ form j, c.dataIn form v = .ok j → Inert j

/-- Whether what notes write over a schema refers to nothing. -/
def InertNotes (notes : Notes) : Prop := Overlay notes.updates ∧ Overlay notes.added

/-- Whether the value of a fallback never reads as a reference. -/
def InertFallback (c : Catalog) (f : Fallback) : Prop := ∀ v, f.value? = some v → InertValue c v

theorem citesOnly_onto {known : String → Prop} {notes : Notes} {e : Entries Json}
    (hn : InertNotes notes) (h : CitesOnly known (.obj e)) :
    CitesOnly known (.obj (notes.onto e)) :=
  citesOnly_override (citesOnly_override h hn.1) hn.2

theorem mapValues_onto {n : Renaming} {notes : Notes} (hn : InertNotes notes) (e : Entries Json) :
    Entries.mapValues n.data (notes.onto e) = notes.onto (Entries.mapValues n.data e) := by
  rw [Notes.onto, Notes.onto, Entries.mapValues_override, Entries.mapValues_override,
    n.mapValues_data_of_overlay hn.1, n.mapValues_data_of_overlay hn.2]

theorem inert_writtenData {c : Catalog} {config : Config} {v : Value} (hv : InertValue c v)
    {j : Json} (h : (writtenData c config v).outcome = .ok j) : Inert j := by
  rw [writtenData] at h
  cases hd : c.dataIn (Config.dataForm config) v with
  | ok k =>
    rw [hd] at h
    cases h
    exact hv _ _ hd
  | error fault =>
    rw [hd] at h
    cases fault <;> cases h

theorem citesOnly_withDefault {known : String → Prop} {c : Catalog} {config : Config}
    {f : Fallback} (hf : InertFallback c f) {e e' : Entries Json} (he : CitesOnly known (.obj e))
    (h : (withDefault c config f e).outcome = .ok e') : CitesOnly known (.obj e') := by
  rcases outcome_withDefault c config f with ⟨o, ho⟩ | ho | ⟨v, j, hv, hj, ho⟩
  · rw [ho] at h
    cases h
  · rw [ho] at h
    cases h
    exact he
  · rw [ho] at h
    cases h
    exact citesOnly_put he (by decide) (fun hk => absurd hk (by decide))
      (.of_inert (hf v hv _ _ hj))

theorem inert_plainEntries {config : Config} (hc : InertConfig config) {p : Plain}
    {bounds : List Bound} (hb : InertBounds bounds) (hn : (bounds.map Bound.kind).Nodup)
    {e : Entries Json} (h : (plainEntries config p bounds).outcome = .ok e) : Inert (.obj e) := by
  have hother : ∀ e', p.entries? config = some e' →
      Inert (.obj (Entries.override e' (p.grip.shown bounds))) := fun e' he =>
    citesOnly_override (inert_entries? hc he) (overlay_shown hb _)
  cases p with
  | str =>
    cases h
    exact inert_textEntries hc hb hn
  | callable | sealed => cases h
  | _ =>
    cases h
    exact hother _ rfl

namespace Shape
variable {c : Catalog} {label label' : Key → String} {config : Config}

mutual
/-- Whether nothing written in a shape reads as a reference. -/
def IsInert (c : Catalog) : Shape → Prop
  | plain _ bounds => InertBounds bounds ∧ (bounds.map Bound.kind).Nodup
  | literal values => ∀ v ∈ values, InertValue c v
  | container _ inner bounds => IsInert c inner ∧ InertBounds bounds
  | tuple items bounds => AllInert c items ∧ InertBounds bounds
  | dict k v bounds => IsInert c k ∧ IsInert c v ∧ InertBounds bounds
  | union members => AllInert c members
  | nullable inner | guarded inner | chained inner _ => IsInert c inner
  | defaulted inner fallback => IsInert c inner ∧ InertFallback c fallback
  | noted inner notes => IsInert c inner ∧ InertNotes notes
  | replaced _ _ | concealed | reference _ | shared _ | record _ _ | enumeration _ _ => True

def AllInert (c : Catalog) : List Shape → Prop
  | [] => True
  | s :: rest => IsInert c s ∧ AllInert c rest
end

def Labelled (label : Key → String) (K : Key → Prop) (name : String) : Prop :=
  ∃ key, K key ∧ label key = name

theorem citesOnly_referenceTo {known : String → Prop} {name : String} (h : known name) :
    CitesOnly known (.obj (referenceTo name)) := by
  refine citesOnly_obj.mpr ⟨by simp [Entries.keys, referenceTo], fun v hv => ?_, fun p hp hk => ?_,
    fun items hi => ?_⟩
  · cases hv
    exact ⟨name, h, rfl⟩
  · rw [List.mem_singleton.mp hp] at hk
    exact absurd rfl hk
  · cases hi

variable {K : Key → Prop}

mutual
theorem citesOnly_sketch (hc : InertConfig config) : (s : Shape) → s.IsInert c →
    (∀ key ∈ s.folded.refs, K key) → ∀ e, s.sketch c label config = .ok e →
      CitesOnly (Labelled label K) (.obj e)
  | plain p bounds, hq, _, e, h => by
    rw [IsInert] at hq
    exact .of_inert (inert_plainEntries hc hq.1 hq.2 h)
  | literal values, hq, _, e, h => by
    rw [IsInert] at hq
    rw [sketch] at h
    obtain ⟨js, hm, h⟩ := exists_of_bind_eq_ok h
    cases h
    refine .of_inert (inert_valueSet fun j hj => ?_)
    obtain ⟨v, hv, hw⟩ := exists_of_mem_mapM (still_writtenData c []) hm hj
    exact inert_writtenData (hq v hv) hw
  | container k inner bounds, hq, hK, e, h => by
    rw [IsInert] at hq
    rw [folded, refs_container] at hK
    rw [sketch] at h
    obtain ⟨item, hi, h⟩ := exists_of_bind_eq_ok h
    cases h
    exact citesOnly_override (citesOnly_listOf (citesOnly_sketch hc inner hq.1 hK item hi) _)
      (overlay_shown hq.2 _)
  | tuple items bounds, hq, hK, e, h => by
    rw [IsInert] at hq
    rw [folded, refs_tuple] at hK
    rw [sketch] at h
    obtain ⟨es, hi, h⟩ := exists_of_bind_eq_ok h
    cases h
    exact citesOnly_override (citesOnly_tupleOf (citesOnly_sketchAll hc items hq.1 hK es hi))
      (overlay_shown hq.2 _)
  | dict k v bounds, hq, hK, e, h => by
    rw [IsInert] at hq
    rw [folded, refs_dict] at hK
    rw [sketch] at h
    obtain ⟨key, hk, h⟩ := exists_of_bind_eq_ok h
    obtain ⟨value, hv, h⟩ := exists_of_bind_eq_ok h
    cases h
    have hkey := citesOnly_sketch hc k hq.1 (fun x hx => hK x (List.mem_append_left _ hx)) key hk
    have hvalue := citesOnly_sketch hc v hq.2.1 (fun x hx => hK x (List.mem_append_right _ hx))
      value hv
    exact citesOnly_override (citesOnly_mappingOf hkey hvalue) (overlay_shown hq.2.2 _)
  | union members, hq, hK, e, h => by
    rw [IsInert] at hq
    rw [folded, refs_union] at hK
    rw [sketch] at h
    obtain ⟨es, hi, h⟩ := exists_of_bind_eq_ok h
    cases h
    exact citesOnly_unionEntries (citesOnly_sketchSome hc members hq hK es hi)
  | nullable inner, hq, hK, e, h => by
    rw [IsInert] at hq
    rw [folded, refs_nullable] at hK
    rw [sketch] at h
    obtain ⟨e', hi, h⟩ := exists_of_bind_eq_ok h
    cases h
    exact citesOnly_orNull (citesOnly_sketch hc inner hq hK e' hi)
  | guarded inner, hq, hK, e, h | chained inner _, hq, hK, e, h => by
    rw [IsInert] at hq
    rw [folded] at hK
    rw [sketch] at h
    exact citesOnly_sketch hc inner hq (by simpa using hK) e h
  | defaulted inner fallback, hq, hK, e, h => by
    rw [IsInert] at hq
    rw [folded, refs_defaulted] at hK
    rw [sketch] at h
    obtain ⟨e', hi, h⟩ := exists_of_bind_eq_ok h
    exact citesOnly_withDefault hq.2 (citesOnly_sketch hc inner hq.1 hK e' hi) h
  | noted inner notes, hq, hK, e, h => by
    rw [IsInert] at hq
    rw [folded, refs_noted] at hK
    rw [sketch] at h
    obtain ⟨e', hi, h⟩ := exists_of_bind_eq_ok h
    cases h
    exact citesOnly_onto hq.2 (citesOnly_sketch hc inner hq.1 hK e' hi)
  | reference key, _, hK, e, h | record key _, _, hK, e, h | enumeration key _, _, hK, e, h => by
    cases h
    exact citesOnly_referenceTo ⟨key, hK key (List.mem_singleton.mpr rfl), rfl⟩
  | replaced _ _, _, _, e, h | concealed, _, _, e, h => by
    cases h
    exact citesOnly_nil
  | shared _, _, _, e, h => by cases h

theorem citesOnly_sketchAll (hc : InertConfig config) : (shapes : List Shape) → AllInert c shapes →
    (∀ key ∈ (foldedList shapes).flatMap refs, K key) → ∀ es,
      sketchAll c label config shapes = .ok es → ∀ e ∈ es, CitesOnly (Labelled label K) (.obj e)
  | [], _, _, es, h => by
    cases h
    exact nofun
  | s :: rest, hq, hK, es, h => by
    rw [AllInert] at hq
    rw [foldedList, List.flatMap_cons] at hK
    rw [sketchAll] at h
    obtain ⟨e, hs, h⟩ := exists_of_bind_eq_ok h
    obtain ⟨es', hr, h⟩ := exists_of_bind_eq_ok h
    cases h
    intro x hx
    rcases List.mem_cons.mp hx with rfl | hx
    · exact citesOnly_sketch hc s hq.1 (fun k hk => hK k (List.mem_append_left _ hk)) x hs
    · exact citesOnly_sketchAll hc rest hq.2 (fun k hk => hK k (List.mem_append_right _ hk))
        es' hr x hx

theorem citesOnly_sketchSome (hc : InertConfig config) : (shapes : List Shape) → AllInert c shapes →
    (∀ key ∈ (foldedList shapes).flatMap refs, K key) → ∀ es,
      sketchSome c label config shapes = .ok es → ∀ e ∈ es, CitesOnly (Labelled label K) (.obj e)
  | [], _, _, es, h => by
    cases h
    exact nofun
  | s :: rest, hq, hK, es, h => by
    rw [AllInert] at hq
    rw [foldedList, List.flatMap_cons] at hK
    rw [sketchSome] at h
    obtain ⟨e, hs, h⟩ := exists_of_bind_eq_ok h
    obtain ⟨es', hr, h⟩ := exists_of_bind_eq_ok h
    cases h
    intro x hx
    rcases List.mem_append.mp hx with hx | hx
    · have hd := mem_of_drawn hs hx
      exact citesOnly_sketch hc s hq.1 (fun k hk => hK k (List.mem_append_left _ hk)) x hd
    · exact citesOnly_sketchSome hc rest hq.2 (fun k hk => hK k (List.mem_append_right _ hk))
        es' hr x hx
end

/-! ## Sketches under other labels -/

theorem drawn_map (f : Entries Json → Entries Json) (x : Except Obstacle (Entries Json)) :
    drawn (x.map f) = (drawn x).map (List.map f) := by
  cases x with
  | ok e => rfl
  | error o => cases o <;> rfl

theorem map_withDefault {n : Renaming} {config : Config} {f : Fallback} (hf : InertFallback c f)
    (e : Entries Json) : (withDefault c config f (Entries.mapValues n.data e)).outcome =
      (withDefault c config f e).outcome.map (Entries.mapValues n.data) := by
  rcases outcome_withDefault c config f with ⟨o, ho⟩ | ho | ⟨v, j, hv, hj, ho⟩
  · rw [ho, ho]
    rfl
  · rw [ho, ho]
    rfl
  · rw [ho, ho]
    refine congrArg Except.ok ?_
    rw [Entries.mapValues_put, n.data_of_inert (hf v hv _ _ hj)]

theorem mapValues_of_inert {n : Renaming} {e : Entries Json} (h : Inert (.obj e)) :
    Entries.mapValues n.data e = e := n.mapValues_data_of_overlay (overlay_of_inert h)

/-- Whether a renaming takes the labels of some keys to other labels, and no two of them to one. -/
structure Relabels (n : Renaming) (label label' : Key → String) (K : Key → Prop) : Prop where
  apply : ∀ key, K key → n.apply (label key) = label' key
  inj : ∀ x y, Labelled label K x → Labelled label K y → n.apply x = n.apply y → x = y

variable {n : Renaming}

mutual
theorem sketch_relabel (hn : Relabels n label label' K) (hc : InertConfig config) : (s : Shape) →
    s.IsInert c → (∀ key ∈ s.folded.refs, K key) →
    s.sketch c label' config = (s.sketch c label config).map (Entries.mapValues n.data)
  | plain p bounds, hq, _ => by
    rw [IsInert] at hq
    rw [sketch, sketch]
    cases h : (plainEntries config p bounds).outcome with
    | error o => rfl
    | ok e =>
      exact congrArg Except.ok (mapValues_of_inert (inert_plainEntries hc hq.1 hq.2 h)).symm
  | literal values, hq, hK => by
    have hcite : ∀ e, (literal values).sketch c label config = .ok e →
        CitesOnly (Labelled label fun _ => False) (.obj e) :=
      citesOnly_sketch hc (literal values) hq (by simp [folded])
    rw [sketch] at hcite
    rw [sketch, sketch]
    cases h : (values.mapM (writtenData c [])).outcome with
    | error o => rfl
    | ok js =>
      have hinert : Inert (.obj (valueSet js)) :=
        (hcite _ (by rw [h]; rfl)).mono fun _ hl => hl.choose_spec.1
      exact congrArg Except.ok (mapValues_of_inert hinert).symm
  | container k inner bounds, hq, hK => by
    rw [IsInert] at hq
    rw [folded, refs_container] at hK
    rw [sketch, sketch, sketch_relabel hn hc inner hq.1 hK]
    cases inner.sketch c label config with
    | error o => rfl
    | ok item =>
      refine congrArg Except.ok ?_
      rw [Entries.mapValues_override, mapValues_listOf, data_obj,
        n.mapValues_data_of_overlay (overlay_shown hq.2 _)]
  | tuple items bounds, hq, hK => by
    rw [IsInert] at hq
    rw [folded, refs_tuple] at hK
    rw [sketch, sketch, sketchAll_relabel hn hc items hq.1 hK]
    cases sketchAll c label config items with
    | error o => rfl
    | ok es =>
      refine congrArg Except.ok ?_
      rw [Entries.mapValues_override, mapValues_tupleOf,
        n.mapValues_data_of_overlay (overlay_shown hq.2 _)]
  | dict k v bounds, hq, hK => by
    rw [IsInert] at hq
    rw [folded, refs_dict] at hK
    have hk := fun key hm => hK key (List.mem_append_left _ hm)
    rw [sketch, sketch, sketch_relabel hn hc k hq.1 hk,
      sketch_relabel hn hc v hq.2.1 fun key hm => hK key (List.mem_append_right _ hm)]
    cases hkey : k.sketch c label config with
    | error o => rfl
    | ok key =>
      cases v.sketch c label config with
      | error o => rfl
      | ok value =>
        refine congrArg Except.ok ?_
        rw [Entries.mapValues_override, mapValues_mappingOf (citesOnly_sketch hc k hq.1 hk key hkey),
          n.mapValues_data_of_overlay (overlay_shown hq.2.2 _)]
  | union members, hq, hK => by
    rw [IsInert] at hq
    rw [folded, refs_union] at hK
    rw [sketch, sketch, sketchSome_relabel hn hc members hq hK]
    cases h : sketchSome c label config members with
    | error o => rfl
    | ok es =>
      exact congrArg Except.ok
        (mapValues_unionEntries hn.inj (citesOnly_sketchSome hc members hq hK es h)).symm
  | nullable inner, hq, hK => by
    rw [IsInert] at hq
    rw [folded, refs_nullable] at hK
    rw [sketch, sketch, sketch_relabel hn hc inner hq hK]
    cases h : inner.sketch c label config with
    | error o => rfl
    | ok e =>
      exact congrArg Except.ok (mapValues_orNull hn.inj (citesOnly_sketch hc inner hq hK e h)).symm
  | guarded inner, hq, hK | chained inner _, hq, hK => by
    rw [IsInert] at hq
    rw [folded] at hK
    rw [sketch, sketch]
    exact sketch_relabel hn hc inner hq (by simpa using hK)
  | defaulted inner fallback, hq, hK => by
    rw [IsInert] at hq
    rw [folded, refs_defaulted] at hK
    rw [sketch, sketch, sketch_relabel hn hc inner hq.1 hK]
    cases inner.sketch c label config with
    | error o => rfl
    | ok e => exact map_withDefault hq.2 e
  | noted inner notes, hq, hK => by
    rw [IsInert] at hq
    rw [folded, refs_noted] at hK
    rw [sketch, sketch, sketch_relabel hn hc inner hq.1 hK]
    cases inner.sketch c label config with
    | error o => rfl
    | ok e => exact congrArg Except.ok (mapValues_onto hq.2 e).symm
  | reference key, _, hK | record key _, _, hK | enumeration key _, _, hK => by
    have hkey := hn.apply key (hK key (List.mem_singleton.mpr rfl))
    refine congrArg Except.ok ?_
    rw [referenceTo, referenceTo, mapValues_cons, Renaming.data, n.text_definitionRef, hkey]
    rfl
  | replaced _ _, _, _ | concealed, _, _ => rfl
  | shared _, _, _ => rfl

theorem sketchAll_relabel (hn : Relabels n label label' K) (hc : InertConfig config) :
    (shapes : List Shape) → AllInert c shapes → (∀ key ∈ (foldedList shapes).flatMap refs, K key) →
    sketchAll c label' config shapes =
      (sketchAll c label config shapes).map (List.map (Entries.mapValues n.data))
  | [], _, _ => rfl
  | s :: rest, hq, hK => by
    rw [AllInert] at hq
    rw [foldedList, List.flatMap_cons] at hK
    rw [sketchAll, sketchAll,
      sketch_relabel hn hc s hq.1 fun key hm => hK key (List.mem_append_left _ hm),
      sketchAll_relabel hn hc rest hq.2 fun key hm => hK key (List.mem_append_right _ hm)]
    cases s.sketch c label config with
    | error o => rfl
    | ok e => cases sketchAll c label config rest <;> rfl

theorem sketchSome_relabel (hn : Relabels n label label' K) (hc : InertConfig config) :
    (shapes : List Shape) → AllInert c shapes → (∀ key ∈ (foldedList shapes).flatMap refs, K key) →
    sketchSome c label' config shapes =
      (sketchSome c label config shapes).map (List.map (Entries.mapValues n.data))
  | [], _, _ => rfl
  | s :: rest, hq, hK => by
    rw [AllInert] at hq
    rw [foldedList, List.flatMap_cons] at hK
    rw [sketchSome, sketchSome,
      sketch_relabel hn hc s hq.1 fun key hm => hK key (List.mem_append_left _ hm),
      sketchSome_relabel hn hc rest hq.2 fun key hm => hK key (List.mem_append_right _ hm), drawn_map]
    cases drawn (s.sketch c label config) with
    | error o => rfl
    | ok es =>
      cases sketchSome c label config rest with
      | error o => rfl
      | ok es' => exact congrArg Except.ok (List.map_append ..).symm
end

/-! ## Obstacles to sketches -/

/-- What is in the way of a result, if anything. -/
def fate {α : Type} : Except Obstacle α → Option Obstacle
  | .ok _ => none
  | .error o => some o

theorem fate_bind {α β α' β' : Type} {x : Except Obstacle α} {y : Except Obstacle α'}
    {f : α → Except Obstacle β} {g : α' → Except Obstacle β'} (h : fate x = fate y)
    (hf : ∀ a b, fate (f a) = fate (g b)) : fate (x >>= f) = fate (y >>= g) := by
  cases x with
  | error o =>
    cases y with
    | error o' => exact h
    | ok b => cases h
  | ok a =>
    cases y with
    | error o' => cases h
    | ok b => exact hf a b

theorem fate_drawn {x y : Except Obstacle (Entries Json)} (h : fate x = fate y) :
    fate (drawn x) = fate (drawn y) := by
  cases x with
  | error o =>
    cases y with
    | error o' =>
      cases h
      cases o <;> rfl
    | ok b => cases h
  | ok a =>
    cases y with
    | error o' => cases h
    | ok b => rfl

theorem fate_withDefault (c : Catalog) (config : Config) (f : Fallback) (e e' : Entries Json) :
    fate (withDefault c config f e).outcome = fate (withDefault c config f e').outcome := by
  rcases outcome_withDefault c config f with ⟨o, ho⟩ | ho | ⟨v, j, -, -, ho⟩
  · rw [ho, ho]
  · rw [ho, ho]
    rfl
  · rw [ho, ho]
    rfl

variable (c label label' config)

mutual
theorem fate_sketch : (s : Shape) →
    fate (s.sketch c label config) = fate (s.sketch c label' config)
  | plain _ _ | literal _ | reference _ | record _ _ | enumeration _ _ | replaced _ _ | concealed
  | shared _ => rfl
  | container _ inner _ | nullable inner | noted inner _ => by
    rw [sketch, sketch]
    exact fate_bind (fate_sketch inner) fun _ _ => rfl
  | tuple items _ => by
    rw [sketch, sketch]
    exact fate_bind (fate_sketchAll items) fun _ _ => rfl
  | union items => by
    rw [sketch, sketch]
    exact fate_bind (fate_sketchSome items) fun _ _ => rfl
  | dict k v _ => by
    rw [sketch, sketch]
    exact fate_bind (fate_sketch k) fun _ _ => fate_bind (fate_sketch v) fun _ _ => rfl
  | guarded inner | chained inner _ => by
    rw [sketch, sketch]
    exact fate_sketch inner
  | defaulted inner fallback => by
    rw [sketch, sketch]
    exact fate_bind (fate_sketch inner) fun e e' => fate_withDefault c config fallback e e'

theorem fate_sketchAll : (shapes : List Shape) →
    fate (sketchAll c label config shapes) = fate (sketchAll c label' config shapes)
  | [] => rfl
  | s :: rest => by
    rw [sketchAll, sketchAll]
    exact fate_bind (fate_sketch s) fun _ _ => fate_bind (fate_sketchAll rest) fun _ _ => rfl

theorem fate_sketchSome : (shapes : List Shape) →
    fate (sketchSome c label config shapes) = fate (sketchSome c label' config shapes)
  | [] => rfl
  | s :: rest => by
    rw [sketchSome, sketchSome]
    exact fate_bind (fate_drawn (fate_sketch s)) fun _ _ =>
      fate_bind (fate_sketchSome rest) fun _ _ => rfl
end

end Shape
end Procedoc
