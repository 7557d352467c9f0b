import Procedoc.Proofs.Keeping.Norm
import Procedoc.Proofs.Rendering.Sketch

/-! # What working on types keeps

Working on a type that obeys a norm, among declarations that obey it, gives a shape that does
(`Shaping.keeps_shapeOf`), and leaves definitions and remarks that do.  Where records may be put
together, the workbench has gone on counting them (`Workbench.Obeys.made`), so that each of them has
a number that the norm allows.

* `ExceptT.Keeps` says of a computation that it keeps an invariant and gives what is good.
* `Catalog.obeys_declare`: a catalog obeys a norm once its models and enumerations do.
* `Catalog.Obeys.heed` and `Catalog.Obeys.layOut`: working on a type leaves it so, and gives a
  layout that obeys.
-/
set_option autoImplicit false

/-! ## Computations that keep an invariant -/

namespace ExceptT
variable {ε σ α β γ : Type} {I : σ → Prop} {good : α → Prop} {fine : β → Prop}

/-- Whether a computation keeps what is true of the state, and gives only what is good. -/
def Keeps (I : σ → Prop) (good : α → Prop) (x : ExceptT ε (StateM σ) α) : Prop :=
  ∀ s, I s → I (x.result s).2 ∧ ∀ a, (x.result s).1 = .ok a → good a

namespace Keeps

theorem pure {a : α} (h : good a) : Keeps I good (pure a : ExceptT ε (StateM σ) α) := fun _ hs =>
  ⟨hs, fun _ hb => Except.ok.inj hb ▸ h⟩

theorem throw (e : ε) : Keeps I good (throw e : ExceptT ε (StateM σ) α) := fun _ hs =>
  ⟨hs, fun _ h => by cases h⟩

theorem bind {x : ExceptT ε (StateM σ) α} {next : α → ExceptT ε (StateM σ) β} (hx : Keeps I good x)
    (hnext : ∀ a, good a → Keeps I fine (next a)) : Keeps I fine (x >>= next) := by
  intro s hs
  obtain ⟨hkept, ha⟩ := hx s hs
  rw [result_bind]
  cases hr : x.result s with
  | mk outcome s' =>
    rw [hr] at hkept ha
    cases outcome with
    | ok a => exact hnext a (ha a rfl) s' hkept
    | error e => exact ⟨hkept, fun _ h => by cases h⟩

theorem throw_bind (e : ε) (next : α → ExceptT ε (StateM σ) β) :
    Keeps I fine ((MonadExcept.throw e : ExceptT ε (StateM σ) α) >>= next) := by
  have hthrow : Keeps I (fun _ => False) (MonadExcept.throw e : ExceptT ε (StateM σ) α) := throw e
  exact bind hthrow fun _ h => h.elim

theorem modify {f : σ → σ} (h : ∀ s, I s → I (f s)) :
    Keeps I (fun _ => True) (modify f : ExceptT ε (StateM σ) PUnit) := fun s hs =>
  ⟨h s hs, fun _ _ => trivial⟩

theorem get : Keeps I I (get : ExceptT ε (StateM σ) σ) := fun _ hs =>
  ⟨hs, fun _ h => Except.ok.inj h ▸ hs⟩

theorem set {s : σ} (h : I s) : Keeps I (fun _ => True) (set s : ExceptT ε (StateM σ) PUnit) :=
  fun _ _ => ⟨h, fun _ _ => trivial⟩

theorem tryCatch {x : ExceptT ε (StateM σ) α} {handle : ε → ExceptT ε (StateM σ) α}
    (hx : Keeps I good x) (hh : ∀ e, Keeps I good (handle e)) :
    Keeps I good (tryCatch x handle) := by
  intro s hs
  obtain ⟨hkept, ha⟩ := hx s hs
  rw [result_tryCatch]
  cases hr : x.result s with
  | mk outcome s' =>
    rw [hr] at hkept ha
    cases outcome with
    | ok a => exact ⟨hkept, ha⟩
    | error e => exact hh e s' hkept

theorem foldlM {f : α → γ → ExceptT ε (StateM σ) α} {cs : List γ}
    (hf : ∀ a, ∀ c ∈ cs, good a → Keeps I good (f a c)) {a : α} (ha : good a) :
    Keeps I good (cs.foldlM f a) := by
  induction cs generalizing a with
  | nil => exact pure ha
  | cons c rest ih =>
    rw [List.foldlM_cons]
    exact bind (hf a c (List.mem_cons_self ..) ha) fun b hb =>
      ih (fun b c hc => hf b c (List.mem_cons_of_mem _ hc)) hb

theorem weaken {good' : α → Prop} (h : ∀ a, good a → good' a) {x : ExceptT ε (StateM σ) α}
    (hx : Keeps I good x) : Keeps I good' x := fun s hs =>
  ⟨(hx s hs).1, fun a ha => h a ((hx s hs).2 a ha)⟩

end Keeps
end ExceptT

namespace Procedoc
open ExceptT (Keeps)
variable {N : Norm} {makes : Prop}

/-! ## Types without records -/

mutual
/-- Where nothing is put together it does not matter whether there may be such records. -/
theorem TypeExpr.Obeys.mono : (a : TypeExpr) → a.Obeys N False → a.Obeys N makes
  | .plain _, _ | .model _, _ | .enumeration _, _ => trivial
  | .literal _, h => h
  | .container _ item, h => by
    rw [TypeExpr.Obeys] at h ⊢
    exact TypeExpr.Obeys.mono item h
  | .tuple items, h | .union _ items, h => by
    rw [TypeExpr.Obeys] at h ⊢
    exact TypeExpr.AllObey.mono items h
  | .dict k v, h => by
    rw [TypeExpr.Obeys] at h ⊢
    exact ⟨TypeExpr.Obeys.mono k h.1, TypeExpr.Obeys.mono v h.2⟩
  | .marked base marks, h => by
    rw [TypeExpr.Obeys] at h ⊢
    exact ⟨TypeExpr.Obeys.mono base h.1, h.2⟩
  | .record r, h => (TypeExpr.obeys_record.mp h).1.elim

theorem TypeExpr.AllObey.mono : (types : List TypeExpr) → TypeExpr.AllObey N False types →
    TypeExpr.AllObey N makes types
  | [], _ => trivial
  | a :: rest, h => ⟨TypeExpr.Obeys.mono a h.1, TypeExpr.AllObey.mono rest h.2⟩
end

/-! ## Definitions -/

namespace Definitions

def Obey (N : Norm) (ds : Definitions) : Prop := ∀ p ∈ ds, p.1.owner.Obeys N ∧ p.2.Obeys N

variable {ds : Definitions}

theorem Obey.find? (h : ds.Obey N) {key : Key} {d : Shape} (hd : ds.find? key = some d) :
    key.owner.Obeys N ∧ d.Obeys N := h _ (mem_of_find? hd)

theorem mem_of_mem_put {key : Key} {d : Shape} {p : Key × Shape} (h : p ∈ ds.put key d) :
    p ∈ ds ∨ p = (key, d) := by
  induction ds with
  | nil => exact .inr (List.mem_singleton.mp h)
  | cons q rest ih =>
    rw [put] at h
    split at h
    · rcases List.mem_cons.mp h with h | h
      · exact .inr h
      · exact .inl (List.mem_cons_of_mem _ h)
    · rcases List.mem_cons.mp h with h | h
      · exact .inl (h ▸ List.mem_cons_self ..)
      · exact (ih h).imp_left (List.mem_cons_of_mem _)

theorem Obey.put (h : ds.Obey N) {key : Key} (hk : key.owner.Obeys N) {d : Shape}
    (hd : d.Obeys N) : (ds.put key d).Obey N := fun p hp =>
  (mem_of_mem_put hp).elim (h p) fun heq => heq ▸ ⟨hk, hd⟩

theorem Obey.putAll (h : ds.Obey N) {others : Definitions} (ho : others.Obey N) :
    (ds.putAll others).Obey N := by
  induction others generalizing ds with
  | nil => exact h
  | cons p rest ih =>
    have hp := ho p (List.mem_cons_self ..)
    exact ih (h.put hp.1 hp.2) fun q hq => ho q (List.mem_cons_of_mem _ hq)

end Definitions

/-! ## Layouts -/

mutual
theorem Shape.Obeys.fill {f : Key → Option Shape} (hf : ∀ key d, f key = some d → d.Obeys N) :
    (s : Shape) → s.Obeys N → (s.fill f).Obeys N
  | .reference key, h => by
    rw [Shape.fill]
    cases hk : f key with
    | none => exact h
    | some d => exact hf key d hk
  | .shared anchor, h => by
    rw [Shape.fill]
    cases hk : f (.model anchor.model) with
    | none => exact h
    | some d => exact hf _ d hk
  | .container _ item _, h | .chained item _, h | .defaulted item _, h | .noted item _, h => by
    rw [Shape.Obeys] at h
    rw [Shape.fill, Shape.Obeys]
    exact ⟨Shape.Obeys.fill hf item h.1, h.2⟩
  | .tuple items _, h => by
    rw [Shape.Obeys] at h
    rw [Shape.fill, Shape.Obeys]
    exact ⟨Shape.AllObey.fill hf items h.1, h.2⟩
  | .dict k v _, h => by
    rw [Shape.Obeys] at h
    rw [Shape.fill, Shape.Obeys]
    exact ⟨Shape.Obeys.fill hf k h.1, Shape.Obeys.fill hf v h.2.1, h.2.2⟩
  | .union members, h => by
    rw [Shape.Obeys] at h
    rw [Shape.fill, Shape.Obeys]
    exact Shape.AllObey.fill hf members h
  | .nullable inner, h | .guarded inner, h => by
    rw [Shape.Obeys] at h
    rw [Shape.fill, Shape.Obeys]
    exact Shape.Obeys.fill hf inner h
  | .replaced inner bare, h => by
    rw [Shape.Obeys] at h
    rw [Shape.fill, Shape.Obeys]
    exact ⟨Shape.Obeys.fill hf inner h.1, Shape.Obeys.fill hf bare h.2⟩
  | .record key ⟨_, _, _, fields⟩, h => by
    rw [Shape.Obeys] at h
    rw [Shape.fill, Shape.Obeys]
    exact ⟨h.1, h.2.1, Shape.FieldsObey.fill hf fields h.2.2⟩
  | .plain _ _, h | .literal _, h | .concealed, h | .enumeration _ _, h => h

theorem Shape.AllObey.fill {f : Key → Option Shape} (hf : ∀ key d, f key = some d → d.Obeys N) :
    (shapes : List Shape) → Shape.AllObey N shapes → Shape.AllObey N (Shape.fillList f shapes)
  | [], _ => trivial
  | s :: rest, h => ⟨Shape.Obeys.fill hf s h.1, Shape.AllObey.fill hf rest h.2⟩

theorem Shape.FieldsObey.fill {f : Key → Option Shape} (hf : ∀ key d, f key = some d → d.Obeys N) :
    (fields : List (Field Shape)) → Shape.FieldsObey N fields →
      Shape.FieldsObey N (Shape.fillFields f fields)
  | [], _ => trivial
  | ⟨_, s, _, _, _⟩ :: rest, h => ⟨⟨Shape.Obeys.fill hf s h.1.1, h.1.2⟩, Shape.FieldsObey.fill hf rest h.2⟩
end

namespace Layout
variable {ds : Definitions}

theorem obeys_settle (h : ds.Obey N) (found : List Found) :
    ∀ p ∈ settle ds found, p.1.key.owner.Obeys N ∧ p.2.Obeys N := by
  induction found with
  | nil => exact fun _ hp => by cases hp
  | cons f rest ih =>
    rw [settle]
    split
    · rename_i d hd
      refine List.forall_mem_cons.mpr ⟨⟨(h.find? hd).1, (h.find? hd).2.fill (fun key d' hk => ?_) _⟩, ih⟩
      obtain ⟨p, hp, rfl⟩ := Option.map_eq_some_iff.mp hk
      exact (ih p (List.mem_of_find?_eq_some hp)).2
    · exact ih

theorem obeys_tidy (isSaid : Anchor → Bool) (h : ds.Obey N) {s : Shape} (hs : s.Obeys N) :
    (tidy isSaid ds s).Obeys N where
  top := by
    refine hs.fill (fun key d hk => ?_) _
    obtain ⟨p, hp, rfl⟩ := Option.map_eq_some_iff.mp hk
    exact (obeys_settle h _ p (List.mem_of_find?_eq_some hp)).2
  definitions p hp := by
    obtain ⟨q, hq, rfl⟩ := List.mem_map.mp hp
    exact obeys_settle h _ q (List.mem_filter.mp hq).1

end Layout

/-! ## Remarks -/

theorem Remarks.obey_add {remarks : Remarks} (h : ∀ p ∈ remarks, p.2.Obeys N) (anchor : Anchor)
    {notes : Notes} (hn : notes.Obeys N) : ∀ p ∈ remarks.add anchor notes, p.2.Obeys N := by
  induction remarks with
  | nil => exact List.forall_mem_singleton.mpr hn
  | cons q rest ih =>
    rw [List.forall_mem_cons] at h
    rw [add]
    split
    · exact List.forall_mem_cons.mpr ⟨h.1.merge hn, h.2⟩
    · exact List.forall_mem_cons.mpr ⟨h.1, ih h.2⟩

/-! ## Work on types -/

structure Workbench.Obeys (N : Norm) (makes : Prop) (w : Workbench) : Prop where
  definitions : w.definitions.Obey N
  remarks : ∀ p ∈ w.remarks, p.2.Obeys N
  made : makes → N.first ≤ w.made

namespace Shaping

/-- Work that leaves on a workbench what obeys a norm, and gives what is good. -/
abbrev Keeping (N : Norm) (makes : Prop) {α : Type} (good : α → Prop) (x : Shaping α) : Prop :=
  Keeps (Workbench.Obeys N makes) good x

def ObeysIfAny (N : Norm) (o : Option Shape) : Prop := ∀ s, o = some s → s.Obeys N

theorem obeysIfAny_some {s : Shape} (h : s.Obeys N) : ObeysIfAny N (some s) := fun _ heq =>
  Option.some.inj heq ▸ h

theorem keeps_define {key : Key} (hk : key.owner.Obeys N) {d : Shape} (hd : d.Obeys N) :
    Keeping N makes (Shape.Obeys N) (define key d) := by
  refine .bind (.modify fun w hw => ⟨hw.definitions.put hk hd, hw.remarks, hw.made⟩) fun _ _ => .pure ?_
  rwa [Shape.Obeys]

theorem keeps_unpack {l : Layout} (h : l.Obeys N) :
    Keeping N makes (Shape.Obeys N) (unpack l) := by
  unfold unpack
  refine .bind (.modify fun w hw => ⟨hw.definitions.putAll h.definitions, hw.remarks, hw.made⟩)
    fun _ _ => ?_
  have htop := h.top
  split
  · rename_i key r heq
    rw [heq] at htop
    exact keeps_define (Shape.obeys_record.mp htop).1 htop
  · exact .pure htop

theorem keeps_attempt {x : Shaping Shape} (h : Keeping N makes (Shape.Obeys N) x) :
    Keeping N makes (ObeysIfAny N) (attempt x) := by
  unfold attempt
  refine .tryCatch (.bind h fun s hs => .pure (obeysIfAny_some hs)) fun stop => ?_
  split
  · exact .pure fun _ h => by cases h
  · exact .throw _

theorem keeps_annotate {notes : Notes} (hn : notes.Obeys N) {s : Shape} (hs : s.Obeys N) :
    Keeping N makes (Shape.Obeys N) (annotate notes s) := by
  unfold annotate
  split
  · rename_i anchor
    refine .bind (.modify fun w hw => ?_) fun _ _ => .pure trivial
    exact ⟨hw.definitions, Remarks.obey_add hw.remarks anchor hn, hw.made⟩
  · exact .pure (hs.note hn)

theorem keeps_mark {bare : Shaping Shape} (hb : Keeping N makes (Shape.Obeys N) bare)
    {s : Option Shape} (hs : ObeysIfAny N s) {m : Mark} (hm : m.Obeys N) :
    Keeping N makes (ObeysIfAny N) (mark bare s m) := by
  unfold mark
  split
  · exact .pure (obeysIfAny_some trivial)
  · rename_i s
    refine .bind (keeps_attempt hb) fun o ho => ?_
    split
    · refine .pure (obeysIfAny_some ?_)
      rw [Shape.Obeys]
      exact ⟨hs s rfl, ho _ rfl⟩
    · exact .pure (obeysIfAny_some trivial)
  · exact .pure fun _ h => by cases h
  · rename_i s _
    refine .pure (obeysIfAny_some ?_)
    rw [Shape.Obeys]
    exact hs s rfl
  · rename_i b s
    exact .bind .get fun w hw =>
      .pure (obeysIfAny_some ((hs s rfl).bound (fun _ _ hd => (hw.definitions.find? hd).2) hm))
  · rename_i facts bounds s
    refine .bind .get fun w hw => .bind (keeps_annotate hm.1.notes ?_) fun _ h =>
      .pure (obeysIfAny_some h)
    exact (hs s rfl).boundAll (fun _ _ hd => (hw.definitions.find? hd).2) hm.2

theorem keeps_markAll {bare : Shaping Shape} (hb : Keeping N makes (Shape.Obeys N) bare)
    {marks : List Mark} (hm : ∀ m ∈ marks, m.Obeys N) :
    Keeping N makes (Shape.Obeys N) (markAll bare marks) := by
  have hmarks : ∀ o, ObeysIfAny N o → Keeping N makes (ObeysIfAny N) (marks.foldlM (mark bare) o) :=
    fun _ => .foldlM fun o m hmem ho => keeps_mark hb ho (hm m hmem)
  refine .bind (keeps_attempt hb) fun o ho => .bind (hmarks o ho) fun o' ho' => ?_
  split
  · exact .pure (ho' _ rfl)
  · exact .throw _

theorem obeys_withDefaults {marks : List Mark} (hm : ∀ m ∈ marks, m.Obeys N) {s : Shape}
    (hs : s.Obeys N) : (withDefaults marks s).Obeys N := by
  have hfs := Field.fallbackObeys_of_mem hm
  unfold withDefaults
  generalize Field.fallbacksOf marks = fallbacks at hfs ⊢
  induction fallbacks generalizing s with
  | nil => exact hs
  | cons f rest ih =>
    rw [List.forall_mem_cons] at hfs
    rw [List.foldl_cons]
    refine ih ?_ hfs.2
    split
    · exact hs
    · rw [Shape.Obeys]
      exact ⟨hs, hfs.1⟩

theorem obeys_unionOf {members : List (TypeExpr × Shape)} (h : ∀ m ∈ members, m.2.Obeys N) :
    (unionOf members).Obeys N := by
  have hshapes : ∀ s ∈ (members.filter fun m => !m.1.isNone).map Prod.snd, s.Obeys N := by
    intro s hs
    obtain ⟨m, hm, rfl⟩ := List.mem_map.mp hs
    exact h m (List.mem_filter.mp hm).1
  have hjoined : (joined ((members.filter fun m => !m.1.isNone).map Prod.snd)).Obeys N := by
    unfold joined
    split
    · rename_i s heq
      exact hshapes s (heq ▸ List.mem_singleton_self s)
    · rw [Shape.Obeys, Shape.allObey_iff]
      exact hshapes
  rw [unionOf_eq]
  split
  · rwa [Shape.Obeys]
  · exact hjoined

theorem keeps_enumeration {c : Catalog} (hc : ∀ e ∈ c.enumerations, ∀ j ∈ e.values, j.Obeys N)
    (name : String) : Keeping N makes (Shape.Obeys N) (enumeration c name) := by
  unfold enumeration
  refine .bind .get fun w hw => ?_
  split
  · exact .pure trivial
  · split
    · rename_i e he
      have howner : (Key.enumeration name).owner.Obeys N := trivial
      refine keeps_define howner ?_
      rw [Shape.Obeys]
      exact ⟨howner, hc e (List.mem_of_find?_eq_some he)⟩
    · exact .throw _

theorem keeps_assemble (hmakes : makes) (name : String) (doc : Option String) {config : Config}
    (hconfig : (Json.obj config).Obeys N) {fields : Shaping (List (Field Shape))}
    (h : Keeping N makes (fun fs => ∀ f ∈ fs, f.type.Obeys N ∧ f.facts.Obeys N) fields) :
    Keeping N makes (Shape.Obeys N) (assemble name doc config fields) := by
  unfold assemble
  split
  · refine .bind .get fun outer houter => ?_
    have howner : (Owner.made name outer.made).Obeys N := houter.made hmakes
    refine .bind (.set ⟨fun _ hp => (by cases hp), houter.remarks, fun _ => ?_⟩) fun _ _ => ?_
    · exact Nat.le_succ_of_le howner
    refine .bind (.tryCatch h fun stop => ?_) fun made hmade => ?_
    · split
      · exact .throw _
      · exact .throw _
    refine .bind (keeps_define howner (Shape.obeys_record.mpr ⟨howner, hconfig, hmade⟩))
      fun top htop => .bind .get fun inner hinner => ?_
    refine .bind (.set ⟨houter.definitions, hinner.remarks, hinner.made⟩) fun _ _ => ?_
    dsimp only
    split
    · exact keeps_unpack (Layout.obeys_tidy _ hinner.definitions htop)
    · exact .throw _
  · exact .throw_bind _ _

variable {c : Catalog} {openModel : String → Shaping Shape}

mutual
theorem keeps_shapeOf (hc : ∀ e ∈ c.enumerations, ∀ j ∈ e.values, j.Obeys N)
    (hopen : ∀ name, Keeping N makes (Shape.Obeys N) (openModel name)) (sealedAllowed : Bool) :
    (a : TypeExpr) → a.Obeys N makes →
      Keeping N makes (Shape.Obeys N) (shapeOf c openModel sealedAllowed a)
  | .plain p, _ => by
    rw [shapeOf]
    split
    · exact .throw _
    · exact .pure fun _ hb => by cases hb
  | .model name, _ => by
    rw [shapeOf]
    exact hopen name
  | .enumeration name, _ => by
    rw [shapeOf]
    exact keeps_enumeration hc name
  | .literal values, h => by
    rw [shapeOf]
    rw [TypeExpr.Obeys] at h
    split
    · exact .throw _
    · exact .pure h
  | .container k item, h => by
    rw [shapeOf]
    rw [TypeExpr.Obeys] at h
    exact .bind (keeps_shapeOf hc hopen sealedAllowed item h) fun s hs =>
      .pure ⟨hs, fun _ hb => by cases hb⟩
  | .tuple items, h => by
    rw [shapeOf]
    rw [TypeExpr.Obeys] at h
    exact .bind (keeps_shapesOf hc hopen sealedAllowed items h) fun shapes hs =>
      .pure ⟨Shape.allObey_iff.mpr hs, fun _ hb => by cases hb⟩
  | .dict k v, h => by
    rw [shapeOf]
    rw [TypeExpr.Obeys] at h
    exact .bind (keeps_shapeOf hc hopen sealedAllowed k h.1) fun a ha =>
      .bind (keeps_shapeOf hc hopen sealedAllowed v h.2) fun b hb =>
        .pure ⟨ha, hb, fun _ hb => by cases hb⟩
  | .union _ members, h => by
    rw [shapeOf]
    rw [TypeExpr.Obeys] at h
    refine .bind (keeps_shapesOf hc hopen sealedAllowed members h) fun shapes hs => .pure ?_
    exact obeys_unionOf fun m hm => hs _ (List.of_mem_zip hm).2
  | .marked base marks, h => by
    rw [shapeOf]
    rw [TypeExpr.Obeys] at h
    exact .bind (keeps_markAll (keeps_shapeOf hc hopen sealedAllowed base h.1) h.2) fun _ hs =>
      .pure (obeys_withDefaults h.2 hs)
  | .record ⟨name, doc, config, fields⟩, h => by
    rw [shapeOf]
    rw [TypeExpr.Obeys] at h
    exact keeps_assemble h.1 name doc h.2.1 (keeps_shapeFields hc hopen _ fields h.2.2)

theorem keeps_shapesOf (hc : ∀ e ∈ c.enumerations, ∀ j ∈ e.values, j.Obeys N)
    (hopen : ∀ name, Keeping N makes (Shape.Obeys N) (openModel name)) (sealedAllowed : Bool) :
    (types : List TypeExpr) → TypeExpr.AllObey N makes types →
      Keeping N makes (fun shapes => ∀ s ∈ shapes, s.Obeys N)
        (shapesOf c openModel sealedAllowed types)
  | [], _ => by
    rw [shapesOf]
    exact .pure fun _ hs => by cases hs
  | a :: rest, h => by
    rw [shapesOf]
    rw [TypeExpr.AllObey] at h
    refine .bind (keeps_shapeOf hc hopen sealedAllowed a h.1) fun s hs => ?_
    refine .bind (keeps_shapesOf hc hopen sealedAllowed rest h.2) fun shapes hall => .pure ?_
    exact List.forall_mem_cons.mpr ⟨hs, hall⟩

theorem keeps_shapeFields (hc : ∀ e ∈ c.enumerations, ∀ j ∈ e.values, j.Obeys N)
    (hopen : ∀ name, Keeping N makes (Shape.Obeys N) (openModel name)) (sealedAllowed : Bool) :
    (fields : List (Field TypeExpr)) → TypeExpr.FieldsObey N makes fields →
      Keeping N makes (fun fs => ∀ f ∈ fs, f.type.Obeys N ∧ f.facts.Obeys N)
        (shapeFields c openModel sealedAllowed fields)
  | [], _ => by
    rw [shapeFields]
    exact .pure fun _ hf => by cases hf
  | ⟨name, type, marks, facts, ruled⟩ :: rest, h => by
    rw [shapeFields]
    rw [TypeExpr.FieldsObey] at h
    refine .bind (keeps_markAll (keeps_shapeOf hc hopen sealedAllowed type h.1.1) h.1.2.1)
      fun s hs => ?_
    refine .bind (keeps_shapeFields hc hopen sealedAllowed rest h.2) fun fs hfs => .pure ?_
    exact List.forall_mem_cons.mpr ⟨⟨hs, h.1.2.2⟩, hfs⟩
end

theorem keeps_modelWithin (hc : c.Obeys N) (depth : Nat) (seen : List String) (name : String) :
    Keeping N makes (Shape.Obeys N) (modelWithin c depth seen name) := by
  induction depth generalizing seen name with
  | zero => exact .pure trivial
  | succ depth ih =>
    unfold modelWithin
    refine .bind .get fun w hw => ?_
    split
    · exact .pure trivial
    · split
      · rename_i l _ hl
        exact keeps_unpack (hc.layouts _ (Entries.mem_of_get? hl))
      · rename_i r _ hr
        have hrecord := hc.models r (List.mem_of_find?_eq_some hr)
        have hfields : TypeExpr.FieldsObey N makes r.fields :=
          TypeExpr.fieldsObey_iff.mpr fun f hf =>
            ⟨(hrecord.fields f hf).type.mono, (hrecord.fields f hf).marks, (hrecord.fields f hf).facts⟩
        split
        · refine .bind (keeps_shapeFields hc.enumerations (ih _) _ r.fields hfields) fun fs hfs => ?_
          have howner : (Key.model name).owner.Obeys N := trivial
          exact keeps_define howner (Shape.obeys_record.mpr ⟨howner, hrecord.config, hfs⟩)
        · exact .throw_bind _ _
      · exact .throw _

end Shaping

/-! ## Catalogs -/

namespace Catalog
variable {c c' : Catalog}

theorem Obeys.work (hc : c.Obeys N) {a : TypeExpr} (ha : a.Obeys N makes)
    (hfirst : makes → N.first = 0) : (∀ p ∈ (c.work a).2.remarks, p.2.Obeys N) ∧
      ∀ l, (c.work a).1 = .ok l → l.Obeys N := by
  have hshape := Shaping.keeps_shapeOf hc.enumerations
    (Shaping.keeps_modelWithin hc (c.models.length + 1) []) false a ha
  obtain ⟨hw, hs⟩ := hshape { remarks := c.remarks }
    ⟨fun _ hp => (by cases hp), hc.remarks, fun hm => Nat.le_of_eq (hfirst hm)⟩
  rw [work_eq, shape]
  rcases hr : (Shaping.shapeOf c (Shaping.modelWithin c (c.models.length + 1) []) false a).result
    { remarks := c.remarks } with ⟨e | s, w⟩
  · rw [hr] at hw
    exact ⟨hw.remarks, fun _ h => by cases h⟩
  · rw [hr] at hw hs
    refine ⟨hw.remarks, fun l hl => ?_⟩
    dsimp only at hl
    split at hl
    · cases hl
      exact Layout.obeys_tidy _ hw.definitions (hs s rfl)
    · cases hl

theorem Obeys.layOut (hc : c.Obeys N) {a : TypeExpr} (ha : a.Obeys N makes)
    (hfirst : makes → N.first = 0) {l : Layout} (h : c.layOut a = .ok l) : l.Obeys N := by
  unfold Catalog.layOut at h
  split at h
  · split at h
    · rename_i hl
      cases h
      exact hc.layouts _ (Entries.mem_of_get? hl)
    · exact (hc.work ha hfirst).2 l h
  · exact (hc.work ha hfirst).2 l h

theorem Obeys.heed (hc : c.Obeys N) {a : TypeExpr} (ha : a.Obeys N makes)
    (hfirst : makes → N.first = 0) : (c.heed a).Obeys N := by
  unfold Catalog.heed
  split
  · exact hc
  · exact ⟨hc.models, hc.enumerations, hc.layouts, (hc.work ha hfirst).1⟩

theorem Obeys.learn (hc : c.Obeys N) {edition : Nat} {name : String}
    (h : c.learn edition name = .ok c') : c'.Obeys N := by
  have hforget : ({ c with layouts := Entries.without c.layouts name } : Catalog).Obeys N :=
    ⟨hc.models, hc.enumerations, fun p hp => hc.layouts p (List.mem_filter.mp hp).1, hc.remarks⟩
  have hmodel : (TypeExpr.model name).Obeys N False := trivial
  have hwork := hforget.work hmodel fun hm => hm.elim
  rw [Catalog.learn] at h
  rcases hw : ({ c with layouts := Entries.without c.layouts name } : Catalog).work (.model name)
    with ⟨e | l, w⟩
  · rw [hw] at h hwork
    cases e
    case unresolved =>
      cases h
      exact ⟨hc.models, hc.enumerations, hforget.layouts, hwork.1⟩
    all_goals cases h
  · rw [hw] at h hwork
    cases h
    have hl := hwork.2 l rfl
    refine ⟨hc.models, hc.enumerations, fun p hp => ?_, hwork.1⟩
    rcases Entries.mem_of_mem_put hp with hp | rfl
    · exact hc.layouts p hp
    · refine ⟨?_, hl.definitions⟩
      dsimp only
      split
      · exact trivial
      · exact hl.top

theorem Obeys.foldlM_learn {names : List String} (hc : c.Obeys N) {edition : Nat}
    (h : names.foldlM (Catalog.learn edition) c = .ok c') : c'.Obeys N := by
  induction names generalizing c with
  | nil =>
    cases h
    exact hc
  | cons name rest ih =>
    obtain ⟨c₁, hlearn, hrest⟩ := foldlM_cons_eq_ok h
    exact ih (hc.learn hlearn) hrest

theorem obeys_foldlM_add {ds : List Declaration} (hc : c.Obeys N)
    (h : ds.foldlM add c = .ok c') (hmodels : ∀ r ∈ c'.models, r.Obeys N False) : c'.Obeys N := by
  induction ds generalizing c with
  | nil =>
    cases h
    exact hc
  | cons d rest ih =>
    obtain ⟨c₁, hadd, hrest⟩ := foldlM_cons_eq_ok h
    obtain ⟨r, -, hlearn⟩ := add_eq_ok hadd
    obtain ⟨more, hmore⟩ := (within_foldlM_add hrest).models
    have hr : r.Obeys N False := by
      refine hmodels r ?_
      rw [hmore, (learn_eq_ok hlearn).1]
      simp
    have hmore : ({ c with models := c.models ++ [r] } : Catalog).Obeys N :=
      ⟨List.forall_mem_append.mpr ⟨hc.models, List.forall_mem_singleton.mpr hr⟩, hc.enumerations,
        hc.layouts, hc.remarks⟩
    exact ih (hmore.learn hlearn) hrest

/-- Declared models and enumerations that obey a norm make a catalog that does. -/
theorem obeys_declare {ds : List Declaration} {es : List Enumeration} (h : declare ds es = .ok c)
    (hmodels : ∀ r ∈ c.models, r.Obeys N False)
    (henums : ∀ e ∈ c.enumerations, ∀ j ∈ e.values, j.Obeys N) : c.Obeys N := by
  obtain ⟨c₁, hadd, hlearn, hm, he⟩ := declare_eq_ok h
  rw [hm] at hmodels
  rw [he, (within_foldlM_add hadd).enumerations] at henums
  have hempty : ({ enumerations := es } : Catalog).Obeys N :=
    ⟨fun _ h => (by cases h), henums, fun _ h => (by cases h), fun _ h => (by cases h)⟩
  exact (obeys_foldlM_add hempty hadd hmodels).foldlM_learn hlearn

end Catalog
end Procedoc
