import Procedoc.Operation

/-! # Where nothing stays behind

Working on a type leaves a remark behind only where something is said at the reference that a model
which contains itself shares with all its users.

* `Catalog.IsQuiet` says of a catalog that it has no such reference.
* `Shaping.Quiet` says of work on a type that it leaves no remark and comes out without one, and
  every part of this work is quiet in a quiet catalog (`Shaping.quiet_shapeOf`).
* `Procedure.heed_of_isQuiet`: a quiet catalog stays as it is when a procedure is documented.
-/

namespace Procedoc
set_option autoImplicit false

/-! ## Shared references -/

/-- Whether a shape is the reference that the users of a model share. -/
def Shape.isShared : Shape → Bool
  | shared _ => true
  | _ => false

/-- Whether no model of a catalog contains itself: what its layout shows is never a shared
reference. -/
def Catalog.IsQuiet (c : Catalog) : Prop := ∀ p ∈ c.layouts, p.2.top.isShared = false

instance (c : Catalog) : Decidable c.IsQuiet :=
  inferInstanceAs (Decidable (∀ p ∈ c.layouts, p.2.top.isShared = false))

namespace Shape

theorem isShared_note (notes : Notes) {s : Shape} (h : s.isShared = false) :
    (s.note notes).isShared = false := by
  unfold note
  split
  · rfl
  · split
    · exact h
    · rfl

theorem isShared_beside (b : Bound) (s : Shape) : (s.beside b).isShared = false := by
  unfold beside
  split <;> rfl

theorem isShared_putBound (b : Bound) {s : Shape} (h : s.isShared = false) :
    (s.putBound b).isShared = false := by
  cases s with
  | shared => exact h
  | _ => rfl

theorem isShared_bound (definition? : Key → Option Shape) (b : Bound) {s : Shape}
    (h : s.isShared = false) : (s.bound definition? b).isShared = false := by
  unfold bound
  split
  · rfl
  · rfl
  · split
    · split
      · exact isShared_beside b _
      · exact isShared_beside b _
    · split
      · exact isShared_putBound b h
      · exact isShared_beside b _

theorem isShared_boundAll (definition? : Key → Option Shape) (bs : List Bound) {s : Shape}
    (h : s.isShared = false) : (s.boundAll definition? bs).isShared = false := by
  induction bs generalizing s with
  | nil => exact h
  | cons b rest ih => exact ih (isShared_bound definition? b h)

end Shape

theorem Shaping.isShared_withDefaults (marks : List Mark) {s : Shape} (h : s.isShared = false) :
    (withDefaults marks s).isShared = false := by
  unfold withDefaults
  induction Field.fallbacksOf marks generalizing s with
  | nil => exact h
  | cons f rest ih =>
    rw [List.foldl_cons]
    split
    · exact ih h
    · exact ih rfl

theorem Shaping.isShared_unionOf {members : List (TypeExpr × Shape)}
    (h : ∀ m ∈ members, m.2.isShared = false) : (unionOf members).isShared = false := by
  unfold unionOf
  simp only
  split
  · rfl
  · split
    · rename_i s hs
      have hmem : s ∈ (members.filter fun m => !m.1.isNone).map Prod.snd := by simp [hs]
      obtain ⟨m, hm, rfl⟩ := List.mem_map.mp hmem
      exact h m ((List.mem_filter.mp hm).1)
    · rfl

/-! ## Layouts of records -/

theorem Definitions.find?_put_self (ds : Definitions) (key : Key) (d : Shape) :
    (ds.put key d).find? key = some d := by
  induction ds with
  | nil => simp [put, find?]
  | cons p rest ih =>
    by_cases hp : p.1 = key
    · simp [put, find?, hp]
    · have hkey : (key == p.1) = false := by simpa using Ne.symm hp
      rw [put, if_neg hp, find?, List.lookup_cons, hkey]
      exact ih

namespace Layout

theorem exists_fill_of_mem_settle {ds : Definitions} {found : List Found} {p : Found × Shape}
    (h : p ∈ settle ds found) : ∃ d f, ds.find? p.1.key = some d ∧ p.2 = d.fill f := by
  induction found with
  | nil => cases h
  | cons f rest ih =>
    rw [settle] at h
    split at h
    · rename_i d hd
      rcases List.mem_cons.mp h with rfl | h
      · exact ⟨d, _, hd, rfl⟩
      · exact ih h
    · exact ih h

theorem isShared_top_tidy (isSaid : Anchor → Bool) {ds : Definitions} {key : Key}
    {r : Record Shape} (h : ds.find? key = some (.record key r)) :
    (tidy isSaid ds (.reference key)).top.isShared = false := by
  simp only [tidy, Shape.fill]
  cases hs : settle.single? (settle ds (needed isSaid ds (.reference key))) key with
  | none => rfl
  | some s =>
    obtain ⟨p, hp, rfl⟩ := Option.map_eq_some_iff.mp hs
    obtain ⟨d, f, hd, hfill⟩ := exists_fill_of_mem_settle (List.mem_of_find?_eq_some hp)
    have hkey : p.1.key = key := by
      have := List.find?_some hp
      simp only [Bool.and_eq_true, decide_eq_true_eq] at this
      exact this.1
    rw [hkey, h] at hd
    cases hd
    rw [Option.getD_some, hfill]
    rfl

end Layout

/-! ## Quiet work -/

namespace Shaping
variable {α β : Type}

theorem run_bind (x : Shaping α) (next : α → Shaping β) (w : Workbench) :
    (x >>= next).run w = match x.run w with
      | (.ok a, w') => (next a).run w'
      | (.error stop, w') => (.error stop, w') := by
  unfold ExceptT.run
  simp only [bind, ExceptT.bind, ExceptT.mk, StateT.bind, ExceptT.bindCont]
  cases x w with
  | mk outcome w' => cases outcome <;> rfl

theorem run_tryCatch (x : Shaping α) (handle : Stop → Shaping α) (w : Workbench) :
    (tryCatch x handle : Shaping α).run w = match x.run w with
      | (.ok a, w') => (.ok a, w')
      | (.error stop, w') => (handle stop).run w' := by
  unfold ExceptT.run
  simp only [tryCatch, tryCatchThe, MonadExceptOf.tryCatch, ExceptT.tryCatch, bind, ExceptT.mk,
    StateT.bind]
  cases x w with
  | mk outcome w' => cases outcome <;> rfl

/-- An outcome of work after which the remarks are as before, and which is of a kind if it is any. -/
structure Leaves (remarks : Remarks) (good : α → Prop) (r : Except Stop α × Workbench) : Prop where
  remarks : r.2.remarks = remarks
  outcome : ∀ a, r.1 = .ok a → good a

/-- Work that leaves no remark, and gives something of a kind if it gives anything. -/
def Quiet (good : α → Prop) (x : Shaping α) : Prop := ∀ w, Leaves w.remarks good (x.run w)

namespace Quiet
variable {good : α → Prop} {fine : β → Prop}

theorem pure {a : α} (h : good a) : Quiet good (pure a) := fun _ =>
  ⟨rfl, fun _ hb => Except.ok.inj hb ▸ h⟩

theorem throw (stop : Stop) : Quiet good (throw stop : Shaping α) := fun _ => ⟨rfl, nofun⟩

theorem throw_bind (stop : Stop) (next : α → Shaping β) :
    Quiet fine ((MonadExcept.throw stop : Shaping α) >>= next) := fun _ => ⟨rfl, nofun⟩

theorem bind {x : Shaping α} {next : α → Shaping β} (hx : Quiet good x)
    (hnext : ∀ a, good a → Quiet fine (next a)) : Quiet fine (x >>= next) := by
  intro w
  obtain ⟨hr, ha⟩ := hx w
  rw [run_bind]
  cases hw : x.run w with
  | mk outcome w' =>
    rw [hw] at hr ha
    rw [← hr]
    cases outcome with
    | ok a => exact hnext a (ha a rfl) w'
    | error stop => exact ⟨rfl, nofun⟩

theorem modify {f : Workbench → Workbench} (h : ∀ w, (f w).remarks = w.remarks) :
    Quiet (fun _ => True) (modify f : Shaping PUnit) := fun w => ⟨h w, fun _ _ => trivial⟩

theorem get_bind {next : Workbench → Shaping β}
    (h : ∀ w, Leaves w.remarks fine ((next w).run w)) : Quiet fine (get >>= next) := h

theorem set_bind {w w' : Workbench} {next : PUnit → Shaping β} (h : Quiet fine (next ⟨⟩))
    (hw : w'.remarks = w.remarks) : Leaves w.remarks fine ((set w' >>= next).run w) :=
  hw ▸ h w'

theorem tryCatch {x : Shaping α} {handle : Stop → Shaping α} (hx : Quiet good x)
    (hh : ∀ stop, Quiet good (handle stop)) : Quiet good (tryCatch x handle) := by
  intro w
  obtain ⟨hr, ha⟩ := hx w
  rw [run_tryCatch]
  cases hw : x.run w with
  | mk outcome w' =>
    rw [hw] at hr ha
    rw [← hr]
    cases outcome with
    | ok a => exact ⟨rfl, ha⟩
    | error stop => exact hh stop w'

theorem foldlM {γ : Type} {f : α → γ → Shaping α} (hf : ∀ a c, good a → Quiet good (f a c))
    (cs : List γ) {a : α} (ha : good a) : Quiet good (cs.foldlM f a) := by
  induction cs generalizing a with
  | nil => exact pure ha
  | cons c rest ih =>
    rw [List.foldlM_cons]
    exact bind (hf a c ha) fun _ => ih

end Quiet

/-! ## Shapes of types -/

/-- A shape of its own. -/
def IsOwn (s : Shape) : Prop := s.isShared = false

/-- What an attempt gives is a shape of its own, if it gives one. -/
def IsOwnIfAny (o : Option Shape) : Prop := ∀ s, o = some s → s.isShared = false

theorem isOwnIfAny_some {s : Shape} (h : s.isShared = false) : IsOwnIfAny (some s) := fun _ heq =>
  Option.some.inj heq ▸ h

theorem quiet_reference (key : Key) : Quiet IsOwn (pure (.reference key)) := .pure rfl

theorem quiet_define (key : Key) (d : Shape) : Quiet IsOwn (define key d) :=
  .bind (.modify fun _ => rfl) fun _ _ => .pure rfl

theorem quiet_unpack {l : Layout} (h : l.top.isShared = false) : Quiet IsOwn (unpack l) := by
  unfold unpack
  refine .bind (.modify fun _ => rfl) fun _ _ => ?_
  split
  · exact quiet_define _ _
  · exact .pure h

theorem quiet_attempt {x : Shaping Shape} (h : Quiet IsOwn x) : Quiet IsOwnIfAny (attempt x) := by
  unfold attempt
  refine .tryCatch (.bind h fun s hs => .pure (isOwnIfAny_some hs)) fun stop => ?_
  split
  · exact .pure nofun
  · exact .throw _

theorem quiet_annotate (notes : Notes) {s : Shape} (h : s.isShared = false) :
    Quiet IsOwn (annotate notes s) := by
  unfold annotate
  split
  · cases h
  · exact .pure (Shape.isShared_note notes h)

theorem quiet_mark {bare : Shaping Shape} (hb : Quiet IsOwn bare) {s : Option Shape}
    (hs : IsOwnIfAny s) (m : Mark) : Quiet IsOwnIfAny (mark bare s m) := by
  unfold mark
  split
  · exact .pure (isOwnIfAny_some rfl)
  · refine .bind (quiet_attempt hb) fun o _ => ?_
    split
    · exact .pure (isOwnIfAny_some rfl)
    · exact .pure (isOwnIfAny_some rfl)
  · exact .pure nofun
  · exact .pure (isOwnIfAny_some rfl)
  · exact fun w => Quiet.pure (isOwnIfAny_some (Shape.isShared_bound _ _ (hs _ rfl))) w
  · rename_i facts bounds s
    refine fun w => Quiet.bind (quiet_annotate _ ?_) (fun _ h => .pure (isOwnIfAny_some h)) w
    exact Shape.isShared_boundAll _ _ (hs _ rfl)

theorem quiet_markAll {bare : Shaping Shape} (hb : Quiet IsOwn bare) (marks : List Mark) :
    Quiet IsOwn (markAll bare marks) := by
  have hmarks : ∀ o, IsOwnIfAny o → Quiet IsOwnIfAny (marks.foldlM (mark bare) o) := fun _ =>
    .foldlM (fun _ m ho => quiet_mark hb ho m) marks
  refine .bind (quiet_attempt hb) fun o ho => .bind (hmarks o ho) fun o' ho' => ?_
  split
  · exact .pure (ho' _ rfl)
  · exact .throw _

theorem quiet_enumeration (c : Catalog) (name : String) : Quiet IsOwn (enumeration c name) := by
  refine .get_bind fun w => ?_
  split
  · exact quiet_reference _ w
  · split
    · exact quiet_define _ _ w
    · exact Quiet.throw _ w

/-- The end of the work on a record that is put together on the spot: it comes out as a reference to
the record, or as the record itself. -/
theorem quiet_close (key : Key) (r : Record Shape) (definitions : Definitions) :
    Quiet IsOwn (do
      let top ← define key (.record key r)
      let inner ← get
      set { inner with definitions }
      let layout := Layout.tidy inner.remarks.has inner.definitions top
      if layout.isSound then unpack layout else throw .unfit) := by
  intro w
  have htop := Layout.isShared_top_tidy w.remarks.has
    (Definitions.find?_put_self w.definitions key (.record key r))
  have hrest : Quiet IsOwn (if (Layout.tidy w.remarks.has
        (w.definitions.put key (.record key r)) (.reference key)).isSound
      then unpack (Layout.tidy w.remarks.has (w.definitions.put key (.record key r))
        (.reference key))
      else throw .unfit) := by
    split
    · exact quiet_unpack htop
    · exact .throw _
  exact hrest { w with definitions }

theorem quiet_assemble (name : String) (doc : Option String) (config : Config)
    {fields : Shaping (List (Field Shape))} (h : Quiet (fun _ => True) fields) :
    Quiet IsOwn (assemble name doc config fields) := by
  unfold assemble
  split
  · refine .get_bind fun outer => Quiet.set_bind (.bind (.tryCatch h fun stop => ?_)
      fun made _ => ?_) rfl
    · split
      · exact .throw _
      · exact .throw _
    · exact quiet_close _ _ outer.definitions
  · exact .throw_bind _ _

variable {c : Catalog} {openModel : String → Shaping Shape}

mutual
theorem quiet_shapeOf (h : ∀ name, Quiet IsOwn (openModel name)) (sealedAllowed : Bool) :
    (type : TypeExpr) → Quiet IsOwn (shapeOf c openModel sealedAllowed type)
  | .plain p => by
    rw [shapeOf]
    split
    · exact .throw _
    · exact .pure rfl
  | .model name => by
    rw [shapeOf]
    exact h name
  | .enumeration name => by
    rw [shapeOf]
    exact quiet_enumeration c name
  | .literal values => by
    rw [shapeOf]
    split
    · exact .throw _
    · exact .pure rfl
  | .container k item => by
    rw [shapeOf]
    exact .bind (quiet_shapeOf h sealedAllowed item) fun _ _ => .pure rfl
  | .tuple items => by
    rw [shapeOf]
    exact .bind (quiet_shapesOf h sealedAllowed items) fun _ _ => .pure rfl
  | .dict k v => by
    rw [shapeOf]
    exact .bind (quiet_shapeOf h sealedAllowed k) fun _ _ =>
      .bind (quiet_shapeOf h sealedAllowed v) fun _ _ => .pure rfl
  | .union pipe members => by
    rw [shapeOf]
    refine .bind (quiet_shapesOf h sealedAllowed members) fun shapes hs => .pure ?_
    exact isShared_unionOf fun m hm => hs _ (List.of_mem_zip hm).2
  | .marked base marks => by
    rw [shapeOf]
    exact .bind (quiet_markAll (quiet_shapeOf h sealedAllowed base) marks) fun _ hs =>
      .pure (isShared_withDefaults marks hs)
  | .record ⟨name, doc, config, fields⟩ => by
    rw [shapeOf]
    exact quiet_assemble name doc config (quiet_shapeFields h _ fields)

theorem quiet_shapesOf (h : ∀ name, Quiet IsOwn (openModel name)) (sealedAllowed : Bool) :
    (types : List TypeExpr) →
      Quiet (fun shapes => ∀ s ∈ shapes, IsOwn s) (shapesOf c openModel sealedAllowed types)
  | [] => by
    rw [shapesOf]
    exact .pure nofun
  | a :: rest => by
    rw [shapesOf]
    refine .bind (quiet_shapeOf h sealedAllowed a) fun s hs => ?_
    refine .bind (quiet_shapesOf h sealedAllowed rest) fun shapes hall => .pure ?_
    exact List.forall_mem_cons.mpr ⟨hs, hall⟩

theorem quiet_shapeFields (h : ∀ name, Quiet IsOwn (openModel name)) (sealedAllowed : Bool) :
    (fields : List (Field TypeExpr)) →
      Quiet (fun _ => True) (shapeFields c openModel sealedAllowed fields)
  | [] => by
    rw [shapeFields]
    exact .pure trivial
  | ⟨name, type, marks, facts, ruled⟩ :: rest => by
    rw [shapeFields]
    exact .bind (quiet_markAll (quiet_shapeOf h sealedAllowed type) marks) fun _ _ =>
      .bind (quiet_shapeFields h sealedAllowed rest) fun _ _ => .pure trivial
end

theorem quiet_modelWithin (hc : c.IsQuiet) (depth : Nat) (seen : List String) (name : String) :
    Quiet IsOwn (modelWithin c depth seen name) := by
  induction depth generalizing seen name with
  | zero => exact quiet_reference _
  | succ depth ih =>
    unfold modelWithin
    refine .get_bind fun w => ?_
    split
    · exact quiet_reference _ w
    · split
      · rename_i l _ hl
        exact quiet_unpack (hc _ (Entries.mem_of_get? hl)) w
      · rename_i r _ _
        split
        · refine Quiet.bind (quiet_shapeFields (ih _) (Config.allowsSealed r.config) r.fields) ?_ w
          exact fun fields _ => quiet_define _ _
        · exact Quiet.throw_bind _ _ w
      · exact Quiet.throw _ w

end Shaping

/-! ## Catalogs -/

namespace Catalog
variable {c : Catalog}

theorem remarks_work (hc : c.IsQuiet) (type : TypeExpr) : (c.work type).2.remarks = c.remarks := by
  have hquiet : Shaping.Quiet Shaping.IsOwn (c.shape type) :=
    Shaping.quiet_shapeOf (Shaping.quiet_modelWithin hc _ _) false type
  have hrun := (hquiet { remarks := c.remarks }).remarks
  unfold work
  cases hw : (c.shape type).run { remarks := c.remarks } with
  | mk outcome w =>
    rw [hw] at hrun
    cases outcome with
    | ok s => exact hrun
    | error stop => exact hrun

theorem heed_of_isQuiet (hc : c.IsQuiet) (type : TypeExpr) : c.heed type = c := by
  unfold heed
  split
  · rfl
  · rw [remarks_work hc]

theorem heedSource_of_isQuiet (hc : c.IsQuiet) (s : Source) : c.heedSource s = c := by
  cases s with
  | type a => exact heed_of_isQuiet hc a
  | _ => rfl

theorem heedInput_of_isQuiet (hc : c.IsQuiet) (input : Source) (template : String) :
    c.heedInput input template = c := by
  unfold heedInput
  rw [heedSource_of_isQuiet hc]
  simp only
  split
  · unfold Schema.heededBy
    split
    · exact heed_of_isQuiet hc _
    · rfl
  · rfl

theorem heedOutput_of_isQuiet (hc : c.IsQuiet) (output : Source) : c.heedOutput output = c := by
  unfold heedOutput
  rw [heedSource_of_isQuiet hc]
  simp only
  split
  · exact heed_of_isQuiet hc _
  · rfl

end Catalog

/-- In a catalog in which no model contains itself, a procedure leaves nothing behind. -/
theorem Procedure.heed_of_isQuiet {c : Catalog} (hc : c.IsQuiet) (p : Procedure) :
    p.heed c = c := by
  have hinput : p.heedInput c = c := by
    unfold heedInput
    split
    · split
      · exact Catalog.heedInput_of_isQuiet hc _ _
      · exact Catalog.heedSource_of_isQuiet hc _
    · rfl
  rw [heed, hinput]
  exact Catalog.heedOutput_of_isQuiet hc _

end Procedoc
