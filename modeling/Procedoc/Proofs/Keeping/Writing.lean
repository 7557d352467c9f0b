import Procedoc.Proofs.Keeping.Parts
import Procedoc.Proofs.Rendering.Labelling

/-! # What writing keeps

Writing a shape that obeys a norm gives a schema such as the norm permits, and leaves definitions
that are so on the sheet, for inputs and for outputs (`Shape.keeps_write`).

On such a sheet each label carries the number of its key (`Sheet.Obeys.labelled`), and so a key that
was not met before gets a label that nothing is defined under (`Sheet.Obeys.notMem_withLabel`). -/

namespace Procedoc
set_option autoImplicit false
open ExceptT (Keeps result_bind)

variable {N : Norm} {c : Catalog}

/-! ## Sheets -/

/-- Whether all that was given a number obeys a norm, all that is defined is such as it permits, and
labels are given in the order of the numbers. -/
structure Sheet.Obeys (N : Norm) (s : Sheet) : Prop where
  owners : ∀ p ∈ s.numbers, p.1.owner.Obeys N
  bounded : ∀ p ∈ s.numbers, p.2 ≤ Sheet.share s.numbers p.1.owner.fullName
  labelled : ∀ p ∈ s.labels, ∃ n, (p.1.1, n) ∈ s.numbers ∧ p.2 = labelOf p.1.1.owner p.1.2 n
  defined : ∀ p ∈ s.definitions, p.1 ∈ s.labels.map Prod.snd ∧ ∃ e, p.2 = .obj e ∧ N.Writes e

namespace Sheet
variable {s : Sheet}

theorem obeys_empty : Sheet.Obeys N {} where
  owners _ h := by cases h
  bounded _ h := by cases h
  labelled _ h := by cases h
  defined _ h := by cases h

theorem Obeys.withLabel (hs : s.Obeys N) {key : Key} (hk : key.owner.Obeys N) (side : Side) :
    (s.withLabel key side).2.Obeys N ∧
      (s.withLabel key side).1 ∈ (s.withLabel key side).2.labels.map Prod.snd ∧
      (s.withLabel key side).2.definitions = s.definitions := by
  cases h : s.labels.lookup (key, side) with
  | some label =>
    rw [withLabel_of_some h]
    exact ⟨hs, List.mem_map_of_mem (mem_of_lookup h), rfl⟩
  | none =>
    rw [withLabel_of_none h]
    refine ⟨⟨fun p hp => ?_, bounded_numbersWith hs.bounded,
      List.forall_mem_cons.mpr ⟨⟨_, mem_numbersWith, rfl⟩, fun p hp => ?_⟩, fun p hp => ?_⟩,
      List.mem_cons_self .., rfl⟩
    · exact (mem_or_of_mem_numbersWith hp).elim (hs.owners p) fun hkey => hkey ▸ hk
    · obtain ⟨n, hn, hp⟩ := hs.labelled p hp
      exact ⟨n, subset_numbersWith hn, hp⟩
    · exact ⟨List.mem_cons_of_mem _ (hs.defined p hp).1, (hs.defined p hp).2⟩

theorem Obeys.define (hs : s.Obeys N) {label : String} (hl : label ∈ s.labels.map Prod.snd)
    {e : Entries Json} (he : N.Writes e) : (s.define label e).Obeys N where
  owners := hs.owners
  bounded := hs.bounded
  labelled := hs.labelled
  defined p hp := (Entries.mem_of_mem_put hp).elim (hs.defined p) fun heq => heq ▸ ⟨hl, e, rfl, he⟩

theorem Obeys.lookup_eq_none (hs : s.Obeys N) {key : Key} (hk : ¬ key.owner.Obeys N)
    (side : Side) : s.labels.lookup (key, side) = none := by
  rw [Option.eq_none_iff_forall_ne_some]
  intro label hlabel
  obtain ⟨n, hn, -⟩ := hs.labelled _ (mem_of_lookup hlabel)
  exact hk (hs.owners _ hn)

/-- The label of a key whose owner does not obey is new, and nothing is defined under it. -/
theorem Obeys.notMem_withLabel (hs : s.Obeys N) {key : Key} (hk : ¬ key.owner.Obeys N)
    (side : Side) : (s.withLabel key side).1 ∉ Entries.keys s.definitions := by
  rw [withLabel_of_none (hs.lookup_eq_none hk side)]
  intro hmem
  obtain ⟨p, hp, heq⟩ := List.mem_map.mp hmem
  obtain ⟨q, hq, hlabelled⟩ := List.mem_map.mp (hs.defined p hp).1
  obtain ⟨n, hn, hnumbered⟩ := hs.labelled q hq
  rw [← hlabelled, hnumbered] at heq
  obtain ⟨hname, -, hsame⟩ := labelOf_inj heq
  -- the number of the key is above all numbers of its full name
  rcases numbersWith_cases s key with ⟨-, hold⟩ | ⟨-, hnew⟩
  · exact hk (hs.owners _ hold)
  · have hle := hs.bounded _ hn
    rw [hname] at hle
    dsimp only at hle
    omega

end Sheet

/-! ## Data of values -/

namespace Catalog
variable {c' : Catalog}

mutual
theorem dataWith_congr (hm : c'.models = c.models) (he : c'.enumerations = c.enumerations)
    {rec : String → Entries Json → Except Fault Json} : (form : DataForm) → (v : Value) →
    c'.dataWith rec form v = c.dataWith rec form v
  | form, .plain j => by simp only [dataWith]
  | form, .many _ items => by
    rw [dataWith, dataWith, dataOfList_congr hm he form items]
  | form, .dict entries => by
    rw [dataWith, dataWith, dataOfEntries_congr hm he form entries]
  | form, .member enumeration name => by
    rw [dataWith, dataWith, memberData, memberData, enumeration?, enumeration?, he]
  | form, .octets bytes => by rw [dataWith, dataWith]
  | form, .date day => by rw [dataWith, dataWith]
  | form, .record model given => by
    rw [dataWith, dataWith, dataOfEntries_congr hm he _ given, configOf, configOf, model?,
      model?, hm]
  | form, .sealed => by rw [dataWith, dataWith]

theorem dataOfList_congr (hm : c'.models = c.models) (he : c'.enumerations = c.enumerations)
    {rec : String → Entries Json → Except Fault Json} : (form : DataForm) → (items : List Value) →
    c'.dataOfList rec form items = c.dataOfList rec form items
  | form, [] => by rw [dataOfList, dataOfList]
  | form, v :: rest => by
    rw [dataOfList, dataOfList, dataWith_congr hm he form v,
      dataOfList_congr hm he form rest]

theorem dataOfEntries_congr (hm : c'.models = c.models) (he : c'.enumerations = c.enumerations)
    {rec : String → Entries Json → Except Fault Json} : (form : DataForm) →
    (entries : List (String × Value)) →
    c'.dataOfEntries rec form entries = c.dataOfEntries rec form entries
  | form, [] => by rw [dataOfEntries, dataOfEntries]
  | form, (k, v) :: rest => by
    rw [dataOfEntries, dataOfEntries, dataWith_congr hm he form v,
      dataOfEntries_congr hm he form rest]
end

theorem recordDataWithin_congr (hm : c'.models = c.models)
    (he : c'.enumerations = c.enumerations) (depth : Nat) (model : String) (given : Entries Json) :
    c'.recordDataWithin depth model given = c.recordDataWithin depth model given := by
  induction depth generalizing model given with
  | zero => rfl
  | succ depth ih =>
    have hrec : c'.recordDataWithin depth = c.recordDataWithin depth :=
      funext fun model => funext fun given => ih model given
    have hdata : ∀ form, c'.dataWith (c.recordDataWithin depth) form =
        c.dataWith (c.recordDataWithin depth) form :=
      fun form => funext fun v => dataWith_congr hm he form v
    rw [recordDataWithin, recordDataWithin, model?, model?, hm, hrec]
    simp only [hdata]

theorem dataIn_congr (hm : c'.models = c.models) (he : c'.enumerations = c.enumerations)
    (form : DataForm) (v : Value) : c'.dataIn form v = c.dataIn form v := by
  have hrec : c'.recordDataWithin (c'.models.length + 1) = c.recordDataWithin (c.models.length + 1) := by
    rw [hm]
    exact funext fun model => funext fun given => recordDataWithin_congr hm he _ model given
  rw [dataIn, dataIn, hrec, dataWith_congr hm he form v]

/-- Whether the data of values that a norm allows obeys the norm. -/
def Yields (N : Norm) (c : Catalog) : Prop :=
  ∀ form v j, N.value v → c.dataIn form v = .ok j → j.Obeys N

theorem Yields.of_same (h : c.Yields N) (hm : c'.models = c.models)
    (he : c'.enumerations = c.enumerations) : c'.Yields N := fun form v j hv hj =>
  h form v j hv (dataIn_congr hm he form v ▸ hj)

end Catalog

/-! ## Work on a sheet -/

/-- Work on a sheet that leaves on it what a norm permits, and gives what is good. -/
abbrev Writing.Keeping (N : Norm) {α : Type} (good : α → Prop) (x : Writing α) : Prop :=
  Keeps (Sheet.Obeys N) good x

open Writing (Keeping)

namespace Writing

theorem keeps_label {key : Key} (hk : key.owner.Obeys N) (side : Side) :
    Keeping N (fun _ => True) (label key side) := fun _ hs =>
  ⟨(hs.withLabel hk side).1, fun _ _ => trivial⟩

theorem keeps_reference {key : Key} (hk : key.owner.Obeys N) (side : Side) :
    Keeping N N.Writes (reference key side) :=
  .bind (keeps_label hk side) fun label _ => .pure (Norm.writes_referenceTo label)

theorem keeps_entity {key : Key} (hk : key.owner.Obeys N) (side : Side)
    {body : Writing (Entries Json)} (hbody : Keeping N N.Writes body) :
    Keeping N N.Writes (entity key side body) := by
  unfold entity
  refine .bind .get fun _ _ => ?_
  split
  · exact .pure (Norm.writes_referenceTo _)
  · refine .bind hbody fun e he s hs => ?_
    obtain ⟨hlabelled, hmem, -⟩ := hs.withLabel hk side
    have hwrites := Norm.writes_referenceTo (N := N) (s.withLabel key side).1
    have hlabel : (label key side).result s =
        (.ok (s.withLabel key side).1, (s.withLabel key side).2) := rfl
    rw [result_bind, hlabel]
    dsimp only
    split
    · exact ⟨hlabelled.define hmem he, fun e' he' => Except.ok.inj he' ▸ hwrites⟩
    · exact ⟨hlabelled, fun e' he' => Except.ok.inj he' ▸ hwrites⟩

theorem keeps_attempt {α : Type} {good : α → Prop} {x : Writing α} (h : Keeping N good x) :
    Keeping N (fun o => ∀ a, o = some a → good a) (attempt x) := by
  unfold attempt
  refine .tryCatch (.bind h fun a ha => .pure fun b hb => Option.some.inj hb ▸ ha) fun o => ?_
  split
  · exact .pure fun _ h => by cases h
  · exact .throw _

theorem keeps_withoutEchoes {e : Entries Json} (he : N.Writes e) :
    Keeping N N.Writes (withoutEchoes e) := by
  unfold withoutEchoes
  split
  · exact .pure he
  · rename_i ref _
    refine .bind .get fun s _ => ?_
    have htarget : Keeping N (fun _ => True) (withoutEchoes.liftExcept (s.target? ref)) := by
      cases s.target? ref with
      | ok target => exact .pure trivial
      | error o => exact .throw o
    refine .bind htarget fun target _ => ?_
    split
    · exact .pure he
    · exact .pure (Norm.writes_filter he _)

end Writing

theorem keeps_writtenData (hc : c.Yields N) (config : Config) {v : Value} (hv : N.value v) :
    Keeping N (Json.Obeys N) (writtenData c config v) := by
  unfold writtenData
  split
  · rename_i j hj
    exact .pure (hc _ v j hv hj)
  · exact .throw _
  · exact .throw _

theorem keeps_mapM_writtenData (hc : c.Yields N) (config : Config) {values : List Value}
    (hv : ∀ v ∈ values, N.value v) :
    Keeping N (fun js => ∀ j ∈ js, j.Obeys N) (values.mapM (writtenData c config)) := by
  induction values with
  | nil => exact .pure fun _ h => by cases h
  | cons v rest ih =>
    rw [List.forall_mem_cons] at hv
    rw [List.mapM_cons]
    refine .bind (keeps_writtenData hc config hv.1) fun j hj => .bind (ih hv.2) fun js hjs => ?_
    exact .pure (List.forall_mem_cons.mpr ⟨hj, hjs⟩)

theorem keeps_withDefault (hc : c.Yields N) (config : Config) {f : Fallback} (hf : f.Obeys N)
    {e : Entries Json} (he : N.Writes e) : Keeping N N.Writes (withDefault c config f e) := by
  unfold withDefault
  split
  · exact .pure he
  · rename_i v hv
    refine .tryCatch (.bind (keeps_writtenData hc config (hf v hv)) fun j hj => .pure ?_) fun o => ?_
    · exact Norm.writes_put he "default" (by decide) (Norm.allows_of_obeys hj)
    · split
      · exact .pure he
      · exact .throw _

theorem keeps_plainEntries {config : Config} (hconfig : (Json.obj config).Obeys N) (p : Plain)
    {bounds : List Bound} (hb : ∀ b ∈ bounds, b.Obeys N) :
    Keeping N N.Writes (plainEntries config p bounds) := by
  unfold plainEntries
  split
  · exact .pure (Norm.writes_of_obeys (obeys_textEntries hconfig hb))
  · rename_i heq
    exact .pure (Norm.writes_override (Plain.writes_entries? hconfig heq) (Grip.obeys_shown _ hb))
  · exact .throw _

theorem keeps_propertyEntries (hc : c.Yields N) (config : Config) {f : Facts} (hf : f.Obeys N)
    (property : String) (wantsTitle : Bool) {shown : Entries Json} (h : N.Writes shown) :
    Keeping N N.Writes (propertyEntries c config f property wantsTitle shown) := by
  unfold propertyEntries
  refine .bind (keeps_withDefault hc config hf.fallback h) fun e he => ?_
  have hnoted := Norm.writes_onto he hf.notes
  refine Writing.keeps_withoutEchoes ?_
  split
  · exact Norm.writes_put hnoted "title" (by decide) trivial
  · exact hnoted

/-! ## Shapes -/

theorem Remarks.obeys_about {remarks : Remarks} (h : ∀ p ∈ remarks, p.2.Obeys N)
    (anchor : Anchor) : (remarks.about anchor).Obeys N := by
  unfold Remarks.about
  cases hl : remarks.lookup anchor with
  | none => exact Notes.obeys_empty
  | some notes => exact h _ (Sheet.mem_of_lookup hl)

namespace Shape

mutual
theorem keeps_write (hc : c.Yields N) (hremarks : ∀ p ∈ c.remarks, p.2.Obeys N) (asked : Side)
    {config : Config} (hconfig : (Json.obj config).Obeys N) : (s : Shape) → s.Obeys N →
      Keeping N N.Writes (s.write c asked config)
  | .plain p bounds, h => by
    rw [Shape.write]
    exact keeps_plainEntries hconfig p h
  | .literal values, h => by
    rw [Shape.write]
    exact .bind (keeps_mapM_writtenData hc [] h) fun js hjs =>
      .pure (Norm.writes_of_obeys (obeys_valueSet hjs))
  | .container k item bounds, h => by
    rw [Shape.write]
    rw [Shape.Obeys] at h
    exact .bind (keeps_write hc hremarks asked hconfig item h.1) fun e he =>
      .pure (Norm.writes_override (Norm.writes_listOf he _) (Grip.items.obeys_shown h.2))
  | .tuple items bounds, h => by
    rw [Shape.write]
    rw [Shape.Obeys] at h
    exact .bind (keeps_writeAll hc hremarks asked hconfig items h.1) fun es hes =>
      .pure (Norm.writes_override (Norm.writes_tupleOf hes) (Grip.items.obeys_shown h.2))
  | .dict k v bounds, h => by
    rw [Shape.write]
    rw [Shape.Obeys] at h
    refine .bind (keeps_write hc hremarks asked hconfig k h.1) fun key hkey => ?_
    exact .bind (keeps_write hc hremarks asked hconfig v h.2.1) fun value hvalue =>
      .pure (Norm.writes_override (Norm.writes_mappingOf hkey hvalue) (Grip.mapping.obeys_shown h.2.2))
  | .union members, h => by
    rw [Shape.write]
    rw [Shape.Obeys] at h
    exact .bind (keeps_writeSome hc hremarks asked hconfig members h) fun es hes =>
      .pure (Norm.writes_unionEntries hes)
  | .nullable inner, h => by
    rw [Shape.write]
    rw [Shape.Obeys] at h
    exact .bind (keeps_write hc hremarks asked hconfig inner h) fun e he =>
      .pure (Norm.writes_orNull he)
  | .guarded inner, h => by
    rw [Shape.write]
    rw [Shape.Obeys] at h
    exact keeps_write hc hremarks asked hconfig inner h
  | .replaced _ bare, h => by
    rw [Shape.write]
    rw [Shape.Obeys] at h
    split
    · exact .pure Norm.writes_nil
    · exact keeps_write hc hremarks asked hconfig bare h.2
  | .concealed, _ => by
    rw [Shape.write]
    split
    · exact .pure Norm.writes_nil
    · exact .throw _
  | .chained inner pattern, h => by
    rw [Shape.write]
    rw [Shape.Obeys] at h
    split
    · exact keeps_write hc hremarks asked hconfig inner h.1
    · refine .pure (Norm.writes_of_obeys (obeys_textEntries hconfig ?_))
      exact List.forall_mem_singleton.mpr h.2
  | .defaulted inner fallback, h => by
    rw [Shape.write]
    rw [Shape.Obeys] at h
    exact .bind (keeps_write hc hremarks asked hconfig inner h.1) fun e he =>
      keeps_withDefault hc config h.2 he
  | .reference key, h => by
    rw [Shape.write]
    rw [Shape.Obeys] at h
    exact Writing.keeps_reference h _
  | .shared anchor, _ => by
    rw [Shape.write]
    have howner : (Key.model anchor.model).owner.Obeys N := trivial
    exact .bind (Writing.keeps_reference howner _) fun e he =>
      .pure (Norm.writes_onto he (Remarks.obeys_about hremarks anchor))
  | .record key ⟨name, doc, own, fields⟩, h => by
    rw [Shape.write]
    rw [Shape.Obeys] at h
    refine Writing.keeps_entity h.1 _ (.bind (keeps_writeFields hc hremarks asked h.2.1 fields h.2.2)
      fun ps hps => ?_)
    split
    · exact .pure (Norm.writes_recordEntries name doc h.2.1 hps)
    · exact .throw _
  | .enumeration key e, h => by
    rw [Shape.write]
    rw [Shape.Obeys] at h
    exact Writing.keeps_entity h.1 _ (.pure (Norm.writes_of_obeys (Enumeration.obeys_definition h.2)))
  | .noted inner notes, h => by
    rw [Shape.write]
    rw [Shape.Obeys] at h
    exact .bind (keeps_write hc hremarks asked hconfig inner h.1) fun e he =>
      .pure (Norm.writes_onto he h.2)

theorem keeps_writeAll (hc : c.Yields N) (hremarks : ∀ p ∈ c.remarks, p.2.Obeys N) (asked : Side)
    {config : Config} (hconfig : (Json.obj config).Obeys N) : (shapes : List Shape) →
      AllObey N shapes →
      Keeping N (fun es => ∀ e ∈ es, N.Writes e) (writeAll c asked config shapes)
  | [], _ => by
    rw [writeAll]
    exact .pure fun _ h => by cases h
  | s :: rest, h => by
    rw [writeAll]
    rw [AllObey] at h
    refine .bind (keeps_write hc hremarks asked hconfig s h.1) fun e he => ?_
    exact .bind (keeps_writeAll hc hremarks asked hconfig rest h.2) fun es hes =>
      .pure (List.forall_mem_cons.mpr ⟨he, hes⟩)

theorem keeps_writeSome (hc : c.Yields N) (hremarks : ∀ p ∈ c.remarks, p.2.Obeys N) (asked : Side)
    {config : Config} (hconfig : (Json.obj config).Obeys N) : (shapes : List Shape) →
      AllObey N shapes →
      Keeping N (fun es => ∀ e ∈ es, N.Writes e) (writeSome c asked config shapes)
  | [], _ => by
    rw [writeSome]
    exact .pure fun _ h => by cases h
  | s :: rest, h => by
    rw [writeSome]
    rw [AllObey] at h
    refine .bind (Writing.keeps_attempt (keeps_write hc hremarks asked hconfig s h.1)) fun o ho => ?_
    refine .bind (keeps_writeSome hc hremarks asked hconfig rest h.2) fun es hes => .pure ?_
    exact List.forall_mem_append.mpr ⟨fun e he => ho e (Option.mem_toList.mp he), hes⟩

theorem keeps_writeFields (hc : c.Yields N) (hremarks : ∀ p ∈ c.remarks, p.2.Obeys N) (asked : Side)
    {config : Config} (hconfig : (Json.obj config).Obeys N) : (fields : List (Field Shape)) →
      FieldsObey N fields →
      Keeping N (fun ps => ∀ p ∈ ps, N.Writes p.schema) (writeFields c asked config fields)
  | [], _ => by
    rw [writeFields]
    exact .pure fun _ h => by cases h
  | ⟨name, s, marks, facts, ruled⟩ :: rest, h => by
    rw [writeFields]
    rw [FieldsObey] at h
    refine .bind (keeps_write hc hremarks asked hconfig s h.1.1) fun shown hshown => ?_
    refine .bind (keeps_propertyEntries hc config h.1.2 _ _ hshown) fun schema hschema => ?_
    exact .bind (keeps_writeFields hc hremarks asked hconfig rest h.2) fun ps hps =>
      .pure (List.forall_mem_cons.mpr ⟨hschema, hps⟩)
end

end Shape

/-! ## Layouts -/

theorem keeps_writeDefinitions (hc : c.Yields N) (hremarks : ∀ p ∈ c.remarks, p.2.Obeys N)
    (asked : Side) {ds : Definitions} (h : ds.Obey N) :
    Keeping N (fun _ => True) (writeDefinitions c asked ds) := by
  induction ds with
  | nil => exact .pure trivial
  | cons p rest ih =>
    obtain ⟨key, s⟩ := p
    rw [Definitions.Obey, List.forall_mem_cons] at h
    rw [writeDefinitions]
    refine .bind (Writing.keeps_attempt (s.keeps_write hc hremarks asked Json.obeys_nil h.1.2))
      fun o _ => ?_
    dsimp only
    split
    · exact ih h.2
    · refine .bind (Writing.keeps_label h.1.1 asked) fun label _ => .bind (.modify ?_) fun _ _ => ih h.2
      exact fun sheet hs => ⟨hs.owners, hs.bounded, hs.labelled, hs.defined⟩

/-- Writing a layout that obeys a norm leaves a sheet that the norm permits. -/
theorem Layout.Obeys.keeps_write (hc : c.Yields N) (hremarks : ∀ p ∈ c.remarks, p.2.Obeys N)
    (asked : Side) {l : Layout} (h : l.Obeys N) : Keeping N N.Writes (l.write c asked) :=
  .bind (keeps_writeDefinitions hc hremarks asked h.definitions) fun _ _ =>
    l.top.keeps_write hc hremarks asked Json.obeys_nil h.top

end Procedoc
