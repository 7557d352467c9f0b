import Procedoc.Proofs.Keeping.Shaping

/-! # Layouts of records that are put together

A record that is put together gets a key of its own, and nothing refers to it.  So following
references finds it first and only once, tidying puts it into the place of that reference, and it
stands on top of its layout with the fields that it was given (`Catalog.topped_layOut`).

What is beside it obeys a norm that counts records from one on, while its own number is zero. -/

namespace Procedoc
set_option autoImplicit false
open ExceptT (Keeps result_bind result_get result_set result_tryCatch)
variable {N : Norm}

/-! ## References in what obeys -/

namespace Shape

mutual
theorem Obeys.mentions {isSaid : Anchor → Bool} : (s : Shape) → s.Obeys N →
    ∀ m ∈ s.mentions isSaid, m.key.owner.Obeys N
  | .plain _ _, _ | .literal _, _ | .concealed, _ | .enumeration _ _, _ => fun _ hm => by
    rw [Shape.mentions] at hm
    cases hm
  | .reference key, h => by
    rw [Shape.mentions]
    exact List.forall_mem_singleton.mpr h
  | .shared anchor, _ => by
    rw [Shape.mentions]
    exact List.forall_mem_singleton.mpr trivial
  | .container _ inner _, h | .chained inner _, h | .defaulted inner _, h => by
    rw [Shape.Obeys] at h
    rw [Shape.mentions]
    exact Obeys.mentions inner h.1
  | .nullable inner, h | .guarded inner, h => by
    rw [Shape.Obeys] at h
    rw [Shape.mentions]
    exact Obeys.mentions inner h
  | .tuple items _, h => by
    rw [Shape.Obeys] at h
    rw [Shape.mentions]
    exact AllObey.mentions items h.1
  | .union members, h => by
    rw [Shape.Obeys] at h
    rw [Shape.mentions]
    exact AllObey.mentions members h
  | .dict k v _, h => by
    rw [Shape.Obeys] at h
    rw [Shape.mentions]
    exact List.forall_mem_append.mpr ⟨Obeys.mentions k h.1, Obeys.mentions v h.2.1⟩
  | .replaced inner bare, h => by
    rw [Shape.Obeys] at h
    rw [Shape.mentions]
    exact List.forall_mem_append.mpr ⟨Obeys.mentions inner h.1, Obeys.mentions bare h.2⟩
  | .record _ ⟨_, _, _, fields⟩, h => by
    rw [Shape.Obeys] at h
    rw [Shape.mentions]
    exact FieldsObey.mentions fields h.2.2
  | .noted inner notes, h => by
    rw [Shape.Obeys] at h
    rw [Shape.mentions.eq_def]
    have hinner : ∀ m ∈ inner.mentions isSaid, m.key.owner.Obeys N := Obeys.mentions inner h.1
    cases inner
    case reference key => exact List.forall_mem_singleton.mpr h.1
    all_goals exact hinner

theorem AllObey.mentions {isSaid : Anchor → Bool} : (shapes : List Shape) → AllObey N shapes →
    ∀ m ∈ mentionsOfList isSaid shapes, m.key.owner.Obeys N
  | [], _ => fun _ hm => by
    rw [mentionsOfList] at hm
    cases hm
  | s :: rest, h => by
    rw [mentionsOfList]
    exact List.forall_mem_append.mpr ⟨Obeys.mentions s h.1, AllObey.mentions rest h.2⟩

theorem FieldsObey.mentions {isSaid : Anchor → Bool} : (fields : List (Field Shape)) →
    FieldsObey N fields → ∀ m ∈ mentionsOfFields isSaid fields, m.key.owner.Obeys N
  | [], _ => fun _ hm => by
    rw [mentionsOfFields] at hm
    cases hm
  | ⟨_, s, _, _, _⟩ :: rest, h => by
    rw [mentionsOfFields]
    exact List.forall_mem_append.mpr ⟨Obeys.mentions s h.1.1, FieldsObey.mentions rest h.2⟩
end

end Shape

/-! ## Following references -/

/-- Whether a key was found first, by one bare reference, and nothing else led to it. -/
def FoundFirst (key : Key) (found : List Found) : Prop :=
  ∃ rest, found = ⟨key, true⟩ :: rest ∧ ∀ g ∈ rest, g.key ≠ key

section Gather
variable {isSaid : Anchor → Bool} {ds : Definitions} {key : Key}

theorem FoundFirst.gather (hds : ∀ k d, ds.find? k = some d → ∀ m ∈ d.mentions isSaid, m.key ≠ key)
    (steps : Nat) (pending : List Mention) (hpending : ∀ m ∈ pending, m.key ≠ key)
    (found : List Found) (h : FoundFirst key found) :
    FoundFirst key (gather isSaid ds steps pending found) := by
  fun_induction Procedoc.gather isSaid ds steps pending found with
  | case1 pending found => exact h
  | case2 steps found => exact h
  | case3 found steps m pending hany ih =>
    obtain ⟨hm, hrest⟩ := List.forall_mem_cons.mp hpending
    refine ih hrest ?_
    obtain ⟨rest, rfl, hother⟩ := h
    rw [List.map_cons, if_neg (Ne.symm hm)]
    refine ⟨_, rfl, fun g hg => ?_⟩
    obtain ⟨f, hf, rfl⟩ := List.mem_map.mp hg
    have hne := hother f hf
    split
    · exact hne
    · exact hne
  | case4 found steps m pending hany d hd ih =>
    obtain ⟨hm, hrest⟩ := List.forall_mem_cons.mp hpending
    refine ih (List.forall_mem_append.mpr ⟨hds _ d hd, hrest⟩) ?_
    obtain ⟨rest, rfl, hother⟩ := h
    exact ⟨_, List.cons_append, List.forall_mem_append.mpr
      ⟨hother, List.forall_mem_singleton.mpr hm⟩⟩
  | case5 found steps m pending hany hd ih =>
    exact ih (List.forall_mem_cons.mp hpending).2 h

/-- A definition to which no definition refers is found first when it is referred to. -/
theorem foundFirst_needed (hds : ∀ k d, ds.find? k = some d → ∀ m ∈ d.mentions isSaid, m.key ≠ key)
    {d : Shape} (hd : ds.find? key = some d) :
    FoundFirst key (Layout.needed isSaid ds (.reference key)) := by
  have hmentions : (Shape.reference key).mentions isSaid = [⟨key, true⟩] := by
    rw [Shape.mentions]
  obtain ⟨steps, hsteps⟩ : ∃ steps, Layout.stepsFor isSaid ds (.reference key) = steps + 1 := by
    refine ⟨(ds.map fun p => (p.2.mentions isSaid).length).sum, ?_⟩
    rw [Layout.stepsFor_eq, hmentions, List.length_singleton, Nat.add_comm]
  rw [Layout.needed, hsteps, hmentions, gather]
  simp only [List.any_nil, Bool.false_eq_true, if_false, hd, List.append_nil, List.nil_append]
  exact FoundFirst.gather hds _ _ (hds key d hd) _ ⟨[], rfl, fun _ h => by cases h⟩

end Gather

/-! ## Tidying -/

def Field.head {α : Type} (f : Field α) : Field Unit := ⟨f.name, (), f.marks, f.facts, f.ruled⟩

/-- Whether a field is another one with definitions in its type; a set of values has no place for
them. -/
structure Field.Stems (f g : Field Shape) : Prop where
  head : f.head = g.head
  values : ∀ values, g.type = .literal values → f.type = .literal values

theorem Field.stems_fillField (fill : Key → Option Shape) (f : Field Shape) :
    (Shape.fillField fill f).Stems f := by
  refine ⟨rfl, fun values hf => ?_⟩
  change f.type.fill fill = _
  rw [hf]
  rfl

/-- Whether a record stands on top of a layout, with all its fields, and whether its fields and all
definitions beside it obey a norm. -/
structure Layout.Topped (N : Norm) (key : Key) (r : Record Shape) (l : Layout) : Prop where
  top : ∃ fields, l.top = .record key ⟨r.name, r.doc, r.config, fields⟩ ∧
    List.Forall₂ Field.Stems fields r.fields ∧ ∀ f ∈ fields, f.type.Obeys N ∧ f.facts.Obeys N
  definitions : l.definitions.Obey N

theorem settle_congr {ds ds' : Definitions} {found : List Found}
    (h : ∀ f ∈ found, ds.find? f.key = ds'.find? f.key) :
    Layout.settle ds found = Layout.settle ds' found := by
  induction found with
  | nil => rfl
  | cons f rest ih =>
    rw [List.forall_mem_cons] at h
    rw [Layout.settle, Layout.settle, ih h.2, h.1]

theorem stems_fillFields (fill : Key → Option Shape) (fields : List (Field Shape)) :
    List.Forall₂ Field.Stems (Shape.fillFields fill fields) fields := by
  rw [Shape.fillFields_eq, List.forall₂_map_left_iff, List.forall₂_same]
  exact fun f _ => Field.stems_fillField fill f

/-- Tidying leaves a record on top whose owner does not obey, when it is put onto definitions that
do. -/
theorem topped_tidy (isSaid : Anchor → Bool) {ds : Definitions} (hds : ds.Obey N) {key : Key}
    (hkey : ¬ key.owner.Obeys N) {r : Record Shape}
    (hr : ∀ f ∈ r.fields, f.type.Obeys N ∧ f.facts.Obeys N) :
    (Layout.tidy isSaid (ds.put key (.record key r)) (.reference key)).Topped N key r := by
  obtain ⟨name, doc, config, fields⟩ := r
  have hfields : Shape.FieldsObey N fields := Shape.fieldsObey_iff.mpr hr
  have hfind : ∀ k, k ≠ key → (ds.put key (.record key ⟨name, doc, config, fields⟩)).find? k =
      ds.find? k := fun k hk => by
    rw [Definitions.find?_put, if_neg (Ne.symm hk)]
  have hself : (ds.put key (.record key ⟨name, doc, config, fields⟩)).find? key =
      some (.record key ⟨name, doc, config, fields⟩) := by
    rw [Definitions.find?_put, if_pos rfl]
  have hmentions : ∀ k d, (ds.put key (.record key ⟨name, doc, config, fields⟩)).find? k = some d →
      ∀ m ∈ d.mentions isSaid, m.key ≠ key := by
    rintro k d hd m hm rfl
    refine hkey ?_
    by_cases hk : k = m.key
    · rw [hk, hself] at hd
      cases hd
      rw [Shape.mentions] at hm
      exact hfields.mentions fields m hm
    · rw [hfind k hk] at hd
      exact (hds.find? hd).2.mentions d m hm
  obtain ⟨rest, hneeded, hother⟩ := foundFirst_needed hmentions hself
  have hrest : Layout.settle (ds.put key (.record key ⟨name, doc, config, fields⟩)) rest =
      Layout.settle ds rest := settle_congr fun f hf => hfind _ (hother f hf)
  have hsettled := Layout.obeys_settle hds rest
  have hfill : ∀ k d, Layout.settle.single? (Layout.settle ds rest) k = some d → d.Obeys N := by
    intro k d hd
    obtain ⟨p, hp, rfl⟩ := Option.map_eq_some_iff.mp hd
    exact (hsettled p (List.mem_of_find?_eq_some hp)).2
  rw [Layout.tidy_of_first hneeded hself, hrest]
  refine ⟨⟨_, rfl, stems_fillFields _ _, ?_⟩, ?_⟩
  · exact Shape.fieldsObey_iff.mp (Shape.FieldsObey.fill hfill fields hfields)
  · intro p hp
    obtain ⟨q, hq, rfl⟩ := List.mem_map.mp hp
    exact hsettled q (List.mem_filter.mp hq).1

/-! ## Work on records that are put together -/

namespace Shaping
variable {c : Catalog} {openModel : String → Shaping Shape}

/-- Whether a field was worked out: what is said of it is left, but for marks, which are put into
place, and so is a set of values without any. -/
structure Worked (f : Field Shape) (g : Field TypeExpr) : Prop where
  head : f.head = Field.head { g with marks := [] }
  values : ∀ values, g.type = .literal values → g.marks = [] → f.type = .literal values

theorem keeps_markAll_nil {I : Workbench → Prop} {good : Shape → Prop} {bare : Shaping Shape}
    (h : Keeps I good bare) : Keeps I good (markAll bare []) := by
  have hattempt : Keeps I (fun o => ∀ s, o = some s → good s) (attempt bare) := by
    unfold attempt
    refine .tryCatch (.bind h fun s hs => .pure fun _ heq => Option.some.inj heq ▸ hs) fun stop => ?_
    split
    · exact .pure fun _ h => by cases h
    · exact .throw _
  refine .bind hattempt fun o ho => ?_
  have hnone : Keeps I (fun o' => o' = o) (Pure.pure o : Shaping (Option Shape)) := .pure rfl
  refine .bind hnone fun o' ho' => ?_
  subst ho'
  split
  · exact .pure (ho _ rfl)
  · exact .throw _

theorem keeps_worked (sealedAllowed : Bool) (fields : List (Field TypeExpr)) :
    Keeps (fun _ => True) (fun fs => List.Forall₂ Worked fs fields)
      (shapeFields c openModel sealedAllowed fields) := by
  induction fields with
  | nil =>
    rw [shapeFields]
    exact .pure .nil
  | cons f rest ih =>
    obtain ⟨name, type, marks, facts, ruled⟩ := f
    have hvalues : Keeps (fun _ => True)
        (fun s => ∀ values, type = .literal values → marks = [] → s = .literal values)
        (markAll (shapeOf c openModel sealedAllowed type) marks) := by
      by_cases hplain : (∃ values, type = .literal values) ∧ marks = []
      · obtain ⟨⟨values, rfl⟩, rfl⟩ := hplain
        have hliteral : Keeps (fun _ => True) (fun s => s = .literal values)
            (shapeOf c openModel sealedAllowed (.literal values)) := by
          rw [shapeOf]
          split
          · exact .throw _
          · exact .pure rfl
        refine .weaken (fun s hs values' heq _ => ?_) (keeps_markAll_nil hliteral)
        cases heq
        exact hs
      · refine fun s _ => ⟨trivial, fun s' _ values hv hm => ?_⟩
        exact absurd ⟨⟨values, hv⟩, hm⟩ hplain
    rw [shapeFields]
    refine .bind hvalues fun s hs => .bind ih fun fs hfs => .pure (.cons ⟨rfl, ?_⟩ hfs)
    exact hs

theorem worked_of_stems {fields made : List (Field Shape)} {given : List (Field TypeExpr)}
    (h : List.Forall₂ Field.Stems fields made) (hw : List.Forall₂ Worked made given) :
    List.Forall₂ Worked fields given := by
  induction h generalizing given with
  | nil => exact hw
  | cons hstem hrest ih =>
    cases hw with
    | cons hwork hworks =>
      exact .cons ⟨hstem.head.trans hwork.head, fun values hv hm =>
        hstem.values values (hwork.values values hv hm)⟩ (ih hworks)

/-- Work on a record that is put together gives the layout of a record with the fields that were
worked out, and unpacks it. -/
theorem exists_of_result_assemble {name : String} {doc : Option String} {config : Config}
    {fields : Shaping (List (Field Shape))} {remarks : Remarks} {s : Shape} {w' : Workbench}
    (h : (assemble name doc config fields).result { remarks } = (.ok s, w')) :
    ∃ made w, fields.result { remarks, made := 1 } = (.ok made, w) ∧
      (unpack (Layout.tidy w.remarks.has (w.definitions.put { owner := .made name 0 }
        (.record { owner := .made name 0 } { name, doc, config, fields := made }))
        (.reference { owner := .made name 0 }))).result { w with definitions := [] } =
          (.ok s, w') := by
  cases hreads : Config.readsNames config with
  | false =>
    rw [assemble, hreads] at h
    cases h
  | true =>
    rcases hfields : fields.result { remarks, made := 1 } with ⟨e | made, w⟩
    · rw [assemble] at h
      simp only [hreads, if_true, result_bind, result_get, result_set, result_tryCatch, hfields] at h
      cases e <;> cases h
    · refine ⟨made, w, rfl, ?_⟩
      rw [result_assemble hreads hfields] at h
      split at h
      · exact h
      · cases h

end Shaping

theorem Catalog.topped_layOut (hfirst : N.first = 1) {c : Catalog} (hc : c.Obeys N)
    {r : Record TypeExpr} (hr : ∀ f ∈ r.fields, f.Obeys N True) {l : Layout}
    (h : c.layOut (.record r) = .ok l) : ∃ fields,
      List.Forall₂ Shaping.Worked fields r.fields ∧
      l.Topped N { owner := .made r.name 0 } ⟨r.name, r.doc, r.config, fields⟩ := by
  obtain ⟨name, doc, config, fields⟩ := r
  have hkey : ¬ ({ owner := .made name 0 } : Key).owner.Obeys N := by
    rw [Owner.Obeys, hfirst]
    decide
  rw [layOut, work_eq, shape, Shaping.shapeOf] at h
  · rcases hresult : (Shaping.assemble name doc config (Shaping.shapeFields c
      (Shaping.modelWithin c (c.models.length + 1) []) (Config.allowsSealed config) fields)).result
        { remarks := c.remarks } with ⟨e | s, w'⟩
    · rw [hresult] at h
      cases h
    rw [hresult] at h
    dsimp only at h
    split at h
    · cases h
      obtain ⟨made, w, hfields, hunpack⟩ := Shaping.exists_of_result_assemble hresult
      have hkept := Shaping.keeps_shapeFields hc.enumerations
        (Shaping.keeps_modelWithin hc (c.models.length + 1) []) (Config.allowsSealed config) fields
        (TypeExpr.fieldsObey_iff.mpr hr) { remarks := c.remarks, made := 1 }
        ⟨fun _ hp => (by cases hp), hc.remarks, fun _ => Nat.le_of_eq hfirst⟩
      have hworked := (Shaping.keeps_worked (Config.allowsSealed config) fields
        { remarks := c.remarks, made := 1 } trivial).2 made (congrArg Prod.fst hfields)
      rw [hfields] at hkept
      -- the record is tidied when it is put together, and again with what it brings along
      have hinner := topped_tidy w.remarks.has hkept.1.definitions hkey
        (r := { name, doc, config, fields := made }) (hkept.2 made rfl)
      obtain ⟨inner, htop, hstems, hobey⟩ := hinner.top
      rw [Shaping.result_unpack htop] at hunpack
      cases hunpack
      refine ⟨inner, Shaping.worked_of_stems hstems hworked, ?_⟩
      rw [htop]
      exact topped_tidy _ (Definitions.Obey.putAll (fun _ hp => (by cases hp)) hinner.definitions)
        hkey hobey
    · cases h
  · exact fun name h => by cases h

end Procedoc
