import Procedoc.Shaping

/-! # Outlines

Working on a type leaves some definitions in place and refers to others.  `Shape.folded` forgets
which are in place, and `Outlines` say what each owner of a definition looks like then.  A shape
`Agrees` with outlines if whatever is in place in it, at any depth, looks like that.

`outline` is the folded shape of a type: it needs no workbench, and it opens no model.
-/

namespace Procedoc
set_option autoImplicit false

/-! ## Shapes with references in the place of definitions -/

namespace Shape

mutual
/-- The shape with a reference in the place of each definition. -/
def folded : Shape → Shape
  | record key _ | enumeration key _ => reference key
  | container c item bounds => container c (folded item) bounds
  | tuple items bounds => tuple (foldedList items) bounds
  | dict k v bounds => dict (folded k) (folded v) bounds
  | union members => union (foldedList members)
  | nullable inner => nullable (folded inner)
  | guarded inner => guarded (folded inner)
  | replaced inner bare => replaced (folded inner) (folded bare)
  | chained inner pattern => chained (folded inner) pattern
  | defaulted inner fallback => defaulted (folded inner) fallback
  | noted inner notes => noted (folded inner) notes
  | s => s

def foldedList : List Shape → List Shape
  | [] => []
  | s :: rest => folded s :: foldedList rest
end

def foldedField (f : Field Shape) : Field Shape := { f with type := f.type.folded }

theorem foldedList_eq (shapes : List Shape) : foldedList shapes = shapes.map folded := by
  induction shapes with
  | nil => rfl
  | cons s rest ih => rw [foldedList, ih, List.map_cons]

def key? : Shape → Option Key
  | record key _ | enumeration key _ => some key
  | _ => none

theorem folded_of_key? {s : Shape} {key : Key} (h : s.key? = some key) :
    s.folded = reference key := by
  cases s <;> simp_all [key?, folded]

theorem key?_underKey {s : Shape} {key : Key} (h : s.key? = some key) (key' : Key) :
    (s.underKey key').key? = some key' := by
  cases s <;> simp_all [key?, underKey]

/-- Whether no definition in place is all that the shape is, notes and null apart. -/
def isOpen : Shape → Bool
  | record _ _ | enumeration _ _ => false
  | noted inner _ | nullable inner => isOpen inner
  | _ => true

end Shape

/-! ## Outlines -/

/-- What the owner of a definition looks like. -/
inductive Outline where
  /-- A record, its fields with references in the place of definitions. -/
  | record (r : Record Shape)
  | enumeration (e : Enumeration)

/-- What the owners of definitions look like, as far as they are known. -/
abbrev Outlines := Owner → Option Outline

namespace Shape

mutual
/-- Whether every reference in a shape is to a known owner, and every definition in place looks like
its owner.  No reference is shared. -/
def Agrees (Δ : Outlines) : Shape → Prop
  | reference key => (Δ key.owner).isSome
  | shared _ => False
  | record key ⟨name, doc, config, fields⟩ =>
    Δ key.owner = some (.record ⟨name, doc, config, fields.map foldedField⟩) ∧
      AgreeFields Δ fields
  | enumeration key e => Δ key.owner = some (.enumeration e)
  | container _ inner _ | nullable inner | guarded inner | chained inner _ | defaulted inner _
  | noted inner _ => Agrees Δ inner
  | tuple items _ => AgreeAll Δ items
  | dict k v _ => Agrees Δ k ∧ Agrees Δ v
  | union members => AgreeAll Δ members
  | replaced inner bare => Agrees Δ inner ∧ Agrees Δ bare
  | plain _ _ | literal _ | concealed => True

def AgreeAll (Δ : Outlines) : List Shape → Prop
  | [] => True
  | s :: rest => Agrees Δ s ∧ AgreeAll Δ rest

def AgreeFields (Δ : Outlines) : List (Field Shape) → Prop
  | [] => True
  | ⟨_, s, _, _, _⟩ :: rest => Agrees Δ s ∧ AgreeFields Δ rest
end

variable {Δ Δ' : Outlines}

theorem agreeAll_iff {shapes : List Shape} : AgreeAll Δ shapes ↔ ∀ s ∈ shapes, Agrees Δ s := by
  induction shapes with
  | nil => simp [AgreeAll]
  | cons s rest ih => simp [AgreeAll, ih]

theorem agreeFields_iff {fields : List (Field Shape)} :
    AgreeFields Δ fields ↔ ∀ f ∈ fields, Agrees Δ f.type := by
  induction fields with
  | nil => simp [AgreeFields]
  | cons f rest ih => simp [AgreeFields, ih]

theorem agrees_of_key? {s : Shape} {key : Key} (h : s.key? = some key) (hs : s.Agrees Δ) :
    (Δ key.owner).isSome := by
  cases s with
  | record k r =>
    cases h
    rw [Agrees] at hs
    rw [hs.1]
    rfl
  | enumeration k e =>
    cases h
    rw [Agrees] at hs
    rw [hs]
    rfl
  | _ => cases h

theorem agrees_underKey {s : Shape} {key : Key} (h : s.key? = some key) (hs : s.Agrees Δ)
    {key' : Key} (ho : key'.owner = key.owner) : (s.underKey key').Agrees Δ := by
  cases s with
  | record k r =>
    cases h
    rw [underKey, Agrees, ho]
    rwa [Agrees] at hs
  | enumeration k e =>
    cases h
    rw [underKey, Agrees, ho]
    rwa [Agrees] at hs
  | _ => cases h

mutual
theorem Agrees.mono (hΔ : ∀ o d, Δ o = some d → Δ' o = some d) :
    (s : Shape) → s.Agrees Δ → s.Agrees Δ'
  | reference key, h => by
    rw [Agrees] at h ⊢
    obtain ⟨d, hd⟩ := Option.isSome_iff_exists.mp h
    rw [hΔ _ _ hd]
    rfl
  | shared _, h => by
    rw [Agrees] at h
    exact h.elim
  | record key ⟨_, _, _, fields⟩, h => by
    rw [Agrees] at h ⊢
    exact ⟨hΔ _ _ h.1, AgreeFields.mono hΔ fields h.2⟩
  | enumeration key e, h => by
    rw [Agrees] at h ⊢
    exact hΔ _ _ h
  | container _ inner _, h | nullable inner, h | guarded inner, h | chained inner _, h
  | defaulted inner _, h | noted inner _, h => by
    rw [Agrees] at h ⊢
    exact Agrees.mono hΔ inner h
  | tuple items _, h | union items, h => by
    rw [Agrees] at h ⊢
    exact AgreeAll.mono hΔ items h
  | dict a b _, h | replaced a b, h => by
    rw [Agrees] at h ⊢
    exact ⟨Agrees.mono hΔ a h.1, Agrees.mono hΔ b h.2⟩
  | plain _ _, _ | literal _, _ | concealed, _ => trivial

theorem AgreeAll.mono (hΔ : ∀ o d, Δ o = some d → Δ' o = some d) :
    (shapes : List Shape) → AgreeAll Δ shapes → AgreeAll Δ' shapes
  | [], _ => trivial
  | s :: rest, h => ⟨Agrees.mono hΔ s h.1, AgreeAll.mono hΔ rest h.2⟩

theorem AgreeFields.mono (hΔ : ∀ o d, Δ o = some d → Δ' o = some d) :
    (fields : List (Field Shape)) → AgreeFields Δ fields → AgreeFields Δ' fields
  | [], _ => trivial
  | ⟨_, s, _, _, _⟩ :: rest, h => ⟨Agrees.mono hΔ s h.1, AgreeFields.mono hΔ rest h.2⟩
end

mutual
theorem Agrees.folded : (s : Shape) → s.Agrees Δ → s.folded.Agrees Δ
  | record key r, h => by
    rw [Shape.folded, Agrees]
    exact agrees_of_key? (s := record key r) rfl h
  | enumeration key e, h => by
    rw [Shape.folded, Agrees]
    exact agrees_of_key? (s := enumeration key e) rfl h
  | container _ inner _, h | nullable inner, h | guarded inner, h | chained inner _, h
  | defaulted inner _, h | noted inner _, h => by
    rw [Agrees] at h
    rw [Shape.folded, Agrees]
    exact Agrees.folded inner h
  | tuple items _, h | union items, h => by
    rw [Agrees] at h
    rw [Shape.folded, Agrees]
    exact AgreeAll.folded items h
  | dict a b _, h | replaced a b, h => by
    rw [Agrees] at h
    rw [Shape.folded, Agrees]
    exact ⟨Agrees.folded a h.1, Agrees.folded b h.2⟩
  | reference _, h | shared _, h | plain _ _, h | literal _, h | concealed, h => h

theorem AgreeAll.folded : (shapes : List Shape) → AgreeAll Δ shapes →
    AgreeAll Δ (foldedList shapes)
  | [], _ => trivial
  | s :: rest, h => ⟨Agrees.folded s h.1, AgreeAll.folded rest h.2⟩
end

mutual
theorem folded_folded : (s : Shape) → s.folded.folded = s.folded
  | container _ inner _ | nullable inner | guarded inner | chained inner _ | defaulted inner _
  | noted inner _ => by rw [folded, folded, folded_folded inner]
  | tuple items _ | union items => by rw [folded, folded, foldedList_foldedList items]
  | dict a b _ | replaced a b => by rw [folded, folded, folded_folded a, folded_folded b]
  | record _ _ | enumeration _ _ | reference _ | shared _ | plain _ _ | literal _ | concealed => rfl

theorem foldedList_foldedList : (shapes : List Shape) →
    foldedList (foldedList shapes) = foldedList shapes
  | [] => rfl
  | s :: rest => by
    rw [foldedList, foldedList, folded_folded s, foldedList_foldedList rest]
end

/-! ## Bounds and notes -/

/-- A definition that stands for all those of its key. -/
def standIn (key : Key) : Option Shape := some (record key default)

/-- A folded shape with a bound put into place. -/
def foldedBound (b : Bound) (s : Shape) : Shape := (s.bound standIn b).folded

theorem grip_folded : {s : Shape} → s.isOpen → s.folded.grip = s.grip
  | noted inner _, h => grip_folded (s := inner) h
  | plain _ _, _ | literal _, _ | container _ _ _, _ | tuple _ _, _ | dict _ _ _, _ | union _, _
  | nullable _, _ | guarded _, _ | replaced _ _, _ | concealed, _ | chained _ _, _
  | defaulted _ _, _ | reference _, _ | shared _, _ => rfl

theorem target?_folded : {s : Shape} → s.isOpen → s.folded.target? = s.target?
  | noted inner _, h => target?_folded (s := inner) h
  | plain _ _, _ | literal _, _ | container _ _ _, _ | tuple _ _, _ | dict _ _ _, _ | union _, _
  | nullable _, _ | guarded _, _ | replaced _ _, _ | concealed, _ | chained _ _, _
  | defaulted _ _, _ | reference _, _ | shared _, _ => rfl

theorem isAroundList_folded : (s : Shape) → s.folded.isAroundList = s.isAroundList
  | noted inner _ | guarded inner => isAroundList_folded inner
  | plain _ _ | literal _ | container _ _ _ | tuple _ _ | dict _ _ _ | union _ | nullable _
  | replaced _ _ | concealed | chained _ _ | defaulted _ _ | reference _ | shared _ | record _ _
  | enumeration _ _ => rfl

theorem isOpen_folded : (s : Shape) → s.folded.isOpen
  | noted inner _ | nullable inner => isOpen_folded inner
  | plain _ _ | literal _ | container _ _ _ | tuple _ _ | dict _ _ _ | union _ | guarded _
  | replaced _ _ | concealed | chained _ _ | defaulted _ _ | reference _ | shared _ | record _ _
  | enumeration _ _ => rfl

theorem folded_putBound (b : Bound) : {s : Shape} → s.isOpen →
    (putBound b s).folded = putBound b s.folded
  | noted inner notes, h => congrArg (noted · notes) (folded_putBound b (s := inner) h)
  | plain _ _, _ | literal _, _ | container _ _ _, _ | tuple _ _, _ | dict _ _ _, _ | union _, _
  | nullable _, _ | guarded _, _ | replaced _ _, _ | concealed, _ | chained _ _, _
  | defaulted _ _, _ | reference _, _ | shared _, _ => rfl

theorem folded_beside (b : Bound) (s : Shape) : (beside b s).folded = (beside b s.folded) := by
  rw [beside, beside, isAroundList_folded]
  split <;> simp [folded]

theorem isOpen_beside (b : Bound) (s : Shape) : (beside b s).isOpen := by
  rw [beside]
  split <;> rfl

theorem isOpen_putBound (b : Bound) : {s : Shape} → s.isOpen → (putBound b s).isOpen
  | noted inner _, h => isOpen_putBound b (s := inner) h
  | nullable _, h => h
  | plain _ _, _ | literal _, _ | container _ _ _, _ | tuple _ _, _ | dict _ _ _, _ | union _, _
  | guarded _, _ | replaced _ _, _ | concealed, _ | chained _ _, _ | defaulted _ _, _
  | reference _, _ | shared _, _ => rfl

/-! ## References in a shape -/

def refs (s : Shape) : List Key := (s.mentions fun _ => false).map Mention.key

mutual
theorem keys_mentions (isSaid : Anchor → Bool) :
    (s : Shape) → (s.mentions isSaid).map Mention.key = s.refs
  | reference _ | shared _ | plain _ _ | literal _ | concealed | enumeration _ _ => rfl
  | container _ inner _ | nullable inner | guarded inner | chained inner _ | defaulted inner _ => by
    rw [refs, mentions, mentions]
    exact keys_mentions isSaid inner
  | noted inner _ => by
    cases inner with
    | reference key => rfl
    | _ =>
      rw [refs, mentions.eq_def, mentions.eq_def]
      exact keys_mentions isSaid _
  | tuple items _ | union items => by
    rw [refs, mentions, mentions]
    exact keys_mentionsOfList isSaid items
  | dict a b _ | replaced a b => by
    rw [refs, mentions, mentions, List.map_append, List.map_append, keys_mentions isSaid a,
      keys_mentions isSaid b]
    rfl
  | record _ ⟨_, _, _, fields⟩ => by
    rw [refs, mentions, mentions]
    exact keys_mentionsOfFields isSaid fields

theorem keys_mentionsOfList (isSaid : Anchor → Bool) : (shapes : List Shape) →
    (mentionsOfList isSaid shapes).map Mention.key =
      (mentionsOfList (fun _ => false) shapes).map Mention.key
  | [] => rfl
  | s :: rest => by
    rw [mentionsOfList, mentionsOfList, List.map_append, List.map_append, keys_mentions isSaid s,
      keys_mentionsOfList isSaid rest]
    rfl

theorem keys_mentionsOfFields (isSaid : Anchor → Bool) : (fields : List (Field Shape)) →
    (mentionsOfFields isSaid fields).map Mention.key =
      (mentionsOfFields (fun _ => false) fields).map Mention.key
  | [] => rfl
  | ⟨_, s, _, _, _⟩ :: rest => by
    rw [mentionsOfFields, mentionsOfFields, List.map_append, List.map_append,
      keys_mentions isSaid s, keys_mentionsOfFields isSaid rest]
    rfl
end

theorem map_key_mentionsOfList (shapes : List Shape) :
    (mentionsOfList (fun _ => false) shapes).map Mention.key = shapes.flatMap refs := by
  induction shapes with
  | nil => rfl
  | cons s rest ih => rw [mentionsOfList, List.map_append, ih, List.flatMap_cons, refs]

theorem map_key_mentionsOfFields (fields : List (Field Shape)) :
    (mentionsOfFields (fun _ => false) fields).map Mention.key =
      fields.flatMap fun f => f.type.refs := by
  induction fields with
  | nil => rfl
  | cons f rest ih => rw [mentionsOfFields, List.map_append, ih, List.flatMap_cons, refs]

@[simp] theorem refs_plain (p : Plain) (bs : List Bound) : (plain p bs).refs = [] := rfl

@[simp] theorem refs_literal (values : List Value) : (literal values).refs = [] := rfl

@[simp] theorem refs_concealed : concealed.refs = [] := rfl

@[simp] theorem refs_reference (key : Key) : (reference key).refs = [key] := rfl

@[simp] theorem refs_enumeration (key : Key) (e : Enumeration) : (enumeration key e).refs = [] :=
  rfl

@[simp] theorem refs_container (c : Container) (item : Shape) (bs : List Bound) :
    (container c item bs).refs = item.refs := by simp only [refs, mentions]

@[simp] theorem refs_nullable (inner : Shape) : (nullable inner).refs = inner.refs := by
  simp only [refs, mentions]

@[simp] theorem refs_guarded (inner : Shape) : (guarded inner).refs = inner.refs := by
  simp only [refs, mentions]

@[simp] theorem refs_chained (inner : Shape) (pattern : Json) :
    (chained inner pattern).refs = inner.refs := by simp only [refs, mentions]

@[simp] theorem refs_defaulted (inner : Shape) (f : Fallback) :
    (defaulted inner f).refs = inner.refs := by simp only [refs, mentions]

@[simp] theorem refs_noted (inner : Shape) (notes : Notes) :
    (noted inner notes).refs = inner.refs := by
  cases inner with
  | reference key => rfl
  | _ => simp only [refs, mentions]

@[simp] theorem refs_tuple (items : List Shape) (bs : List Bound) :
    (tuple items bs).refs = items.flatMap refs := by
  rw [refs, mentions, map_key_mentionsOfList]

@[simp] theorem refs_union (members : List Shape) : (union members).refs = members.flatMap refs := by
  rw [refs, mentions, map_key_mentionsOfList]

@[simp] theorem refs_dict (k v : Shape) (bs : List Bound) :
    (dict k v bs).refs = k.refs ++ v.refs := by
  rw [refs, mentions, List.map_append]
  rfl

@[simp] theorem refs_replaced (inner bare : Shape) :
    (replaced inner bare).refs = inner.refs ++ bare.refs := by
  rw [refs, mentions, List.map_append]
  rfl

@[simp] theorem refs_record (key : Key) (r : Record Shape) :
    (record key r).refs = r.fields.flatMap fun f => f.type.refs := by
  rw [refs, mentions, map_key_mentionsOfFields]

@[simp] theorem refs_underKey (key : Key) (s : Shape) : (s.underKey key).refs = s.refs := by
  cases s <;> simp [underKey]

mutual
theorem isSome_of_mem_refs {key : Key} : (s : Shape) → s.Agrees Δ → key ∈ s.refs →
    (Δ key.owner).isSome
  | reference k, ha, h => by
    have heq : key = k := by simpa using h
    rw [heq]
    exact ha
  | shared _, ha, _ => by
    rw [Agrees] at ha
    exact ha.elim
  | container _ inner _, ha, h | nullable inner, ha, h | guarded inner, ha, h
  | chained inner _, ha, h | defaulted inner _, ha, h | noted inner _, ha, h => by
    rw [Agrees] at ha
    exact isSome_of_mem_refs inner ha (by simpa using h)
  | tuple items _, ha, h | union items, ha, h => by
    rw [Agrees] at ha
    exact isSome_of_mem_refsOfAll items ha (by simpa using h)
  | dict a b _, ha, h | replaced a b, ha, h => by
    rw [Agrees] at ha
    have hab : key ∈ a.refs ∨ key ∈ b.refs := by simpa using h
    exact hab.elim (isSome_of_mem_refs a ha.1) (isSome_of_mem_refs b ha.2)
  | record _ ⟨_, _, _, fields⟩, ha, h => by
    rw [Agrees] at ha
    exact isSome_of_mem_refsOfFields fields ha.2 (by simpa using h)
  | enumeration _ _, _, h | plain _ _, _, h | literal _, _, h | concealed, _, h => by
    simp at h

theorem isSome_of_mem_refsOfAll {key : Key} : (shapes : List Shape) → AgreeAll Δ shapes →
    key ∈ shapes.flatMap refs → (Δ key.owner).isSome
  | [], _, h => by cases h
  | s :: rest, ha, h => by
    rw [List.flatMap_cons, List.mem_append] at h
    exact h.elim (isSome_of_mem_refs s ha.1) (isSome_of_mem_refsOfAll rest ha.2)

theorem isSome_of_mem_refsOfFields {key : Key} : (fields : List (Field Shape)) →
    AgreeFields Δ fields → key ∈ fields.flatMap (fun f => f.type.refs) → (Δ key.owner).isSome
  | [], _, h => by cases h
  | ⟨_, s, _, _, _⟩ :: rest, ha, h => by
    rw [List.flatMap_cons, List.mem_append] at h
    exact h.elim (isSome_of_mem_refs s ha.1) (isSome_of_mem_refsOfFields rest ha.2)
end

/-! ## What bounds leave as it is -/

theorem mem_refs_of_target? {key : Key} : {s : Shape} → s.target? = some key → s.Agrees Δ →
    key ∈ s.refs
  | reference k, h, _ => by
    rw [refs_reference, Option.some.inj h]
    exact List.mem_singleton_self key
  | noted inner notes, h, hs => by
    rw [Agrees] at hs
    rw [refs_noted]
    exact mem_refs_of_target? (s := inner) h hs

@[simp] theorem refs_beside (b : Bound) (s : Shape) : (beside b s).refs = s.refs := by
  rw [beside]
  split <;> simp

@[simp] theorem refs_putBound (b : Bound) : (s : Shape) → (putBound b s).refs = s.refs
  | noted inner _ => by rw [putBound, refs_noted, refs_noted, refs_putBound b inner]
  | container _ _ _ | tuple _ _ | dict _ _ _ => by simp [putBound]
  | plain _ _ | literal _ | union _ | nullable _ | guarded _ | replaced _ _ | concealed
  | chained _ _ | defaulted _ _ | reference _ | shared _ | record _ _ | enumeration _ _ => rfl

theorem agrees_beside (b : Bound) {s : Shape} (h : s.Agrees Δ) : (beside b s).Agrees Δ := by
  rw [beside]
  split <;> simpa [Agrees] using h

theorem agrees_putBound (b : Bound) : {s : Shape} → s.Agrees Δ → (putBound b s).Agrees Δ
  | noted inner _, h => by
    rw [Agrees] at h
    rw [putBound, Agrees]
    exact agrees_putBound b h
  | container _ _ _, h | tuple _ _, h | dict _ _ _, h => by simpa [putBound, Agrees] using h
  | plain _ _, h | literal _, h | union _, h | nullable _, h | guarded _, h | replaced _ _, h
  | concealed, h | chained _ _, h | defaulted _ _, h | reference _, h | shared _, h
  | record _ _, h | enumeration _ _, h => h

theorem isOpen_bound (definition? : Key → Option Shape) (b : Bound) {s : Shape} (h : s.isOpen) :
    (s.bound definition? b).isOpen := by
  fun_induction Shape.bound definition? b s with
  | case1 inner ih => exact ih h
  | case2 inner notes ih => exact ih h
  | case3 => exact isOpen_beside _ _
  | case4 => exact isOpen_beside _ _
  | case5 => exact isOpen_putBound b h
  | case6 => exact isOpen_beside _ _

/-- Whether a shape's references lead to definitions that look like their owners. -/
def Leads (Δ : Outlines) (definition? : Key → Option Shape) (s : Shape) : Prop :=
  ∀ key ∈ s.refs, ∃ d, definition? key = some d ∧ d.key? = some key ∧ d.Agrees Δ

theorem folded_ne_nullable {s : Shape} (h : ∀ inner, s ≠ nullable inner) (inner : Shape) :
    s.folded ≠ nullable inner := by
  cases s <;> simp_all [folded]

theorem folded_ne_noted {s : Shape} (h : ∀ inner notes, s ≠ noted (nullable inner) notes)
    (inner : Shape) (notes : Notes) : s.folded ≠ noted (nullable inner) notes := by
  cases s with
  | noted t n =>
    have ht : ∀ inner, t ≠ nullable inner := fun inner heq => h inner n (by rw [heq])
    intro heq
    rw [folded] at heq
    exact folded_ne_nullable ht inner (Shape.noted.inj heq).1
  | _ => simp [folded]

theorem folded_bound {definition? : Key → Option Shape} (b : Bound) {s : Shape} (h : s.isOpen)
    (hs : s.Agrees Δ) (hd : s.Leads Δ definition?) :
    (s.bound definition? b).folded = foldedBound b s.folded := by
  fun_induction Shape.bound definition? b s with
  | case1 inner ih =>
    rw [folded, folded, foldedBound, bound, folded, ih h (by simpa [Agrees] using hs)
      (by simpa [Leads] using hd)]
    rfl
  | case2 inner notes ih =>
    simp only [folded, foldedBound, bound]
    rw [ih h (by simpa [Agrees] using hs) (by simpa [Leads] using hd)]
    rfl
  | case3 s hn hnn key ht d hdef =>
    obtain ⟨d', hd', hk, -⟩ := hd key (mem_refs_of_target? ht hs)
    rw [hdef] at hd'
    cases hd'
    rw [foldedBound, bound.eq_3 _ _ _ (folded_ne_nullable hn) (folded_ne_noted hnn),
      target?_folded h, ht]
    simp only [standIn]
    rw [folded_beside, folded_beside, folded_of_key? (key?_underKey hk _), underKey, folded]
  | case4 s hn hnn key ht hdef =>
    obtain ⟨d, hd', -⟩ := hd key (mem_refs_of_target? ht hs)
    rw [hdef] at hd'
    cases hd'
  | case5 s hn hnn ht hg =>
    rw [foldedBound, bound.eq_3 _ _ _ (folded_ne_nullable hn) (folded_ne_noted hnn),
      target?_folded h, ht]
    simp only [grip_folded h, hg, if_true]
    rw [folded_putBound b h, folded_putBound b (isOpen_folded s), folded_folded]
  | case6 s hn hnn ht hg =>
    rw [foldedBound, bound.eq_3 _ _ _ (folded_ne_nullable hn) (folded_ne_noted hnn),
      target?_folded h, ht]
    simp only [grip_folded h, hg, if_false, Bool.false_eq_true]
    rw [folded_beside, folded_beside, folded_folded]

theorem agrees_bound {definition? : Key → Option Shape} (b : Bound) {s : Shape}
    (hs : s.Agrees Δ) (hd : s.Leads Δ definition?) : (s.bound definition? b).Agrees Δ := by
  fun_induction Shape.bound definition? b s with
  | case1 inner ih =>
    rw [Agrees] at hs ⊢
    exact ih hs (by simpa [Leads] using hd)
  | case2 inner notes ih =>
    rw [Agrees, Agrees] at hs ⊢
    exact ih hs (by simpa [Leads] using hd)
  | case3 s hn hnn key ht d hdef =>
    obtain ⟨d', hd', hk, ha⟩ := hd key (mem_refs_of_target? ht hs)
    rw [hdef] at hd'
    cases hd'
    exact agrees_beside b (agrees_underKey hk ha rfl)
  | case4 => exact agrees_beside b hs
  | case5 => exact agrees_putBound b hs
  | case6 => exact agrees_beside b hs

theorem mem_refs_bound {definition? : Key → Option Shape} {b : Bound} {s : Shape} {k : Key}
    (hs : s.Agrees Δ) (h : k ∈ (s.bound definition? b).refs) :
    k ∈ s.refs ∨ ∃ key ∈ s.refs, ∃ d, definition? key = some d ∧ k ∈ d.refs := by
  fun_induction Shape.bound definition? b s with
  | case1 inner ih =>
    rw [Agrees] at hs
    simpa using ih hs (by simpa using h)
  | case2 inner notes ih =>
    rw [Agrees, Agrees] at hs
    simpa using ih hs (by simpa using h)
  | case3 s hn hnn key ht d hdef =>
    exact .inr ⟨key, mem_refs_of_target? ht hs, d, hdef, by simpa using h⟩
  | case4 => exact .inl (by simpa using h)
  | case5 => exact .inl (by simpa using h)
  | case6 => exact .inl (by simpa using h)

theorem folded_note (notes : Notes) (s : Shape) : (s.note notes).folded = s.folded.note notes := by
  have hf : ∀ t : Shape, (if notes.isEmpty then t else noted t notes).folded =
      if notes.isEmpty then t.folded else noted t.folded notes := by
    intro t
    split <;> rfl
  cases s <;> first | exact hf _ | rfl

theorem isOpen_note (notes : Notes) {s : Shape} (h : s.isOpen) : (s.note notes).isOpen := by
  have hf : ∀ t : Shape, t.isOpen → (if notes.isEmpty then t else noted t notes).isOpen := by
    intro t ht
    split <;> exact ht
  cases s <;> first | exact hf _ h | exact h

@[simp] theorem refs_note (notes : Notes) (s : Shape) : (s.note notes).refs = s.refs := by
  have hf : ∀ t : Shape, (if notes.isEmpty then t else noted t notes).refs = t.refs := by
    intro t
    split <;> simp
  cases s <;> first | exact hf _ | simp [note]

theorem agrees_note (notes : Notes) {s : Shape} (h : s.Agrees Δ) : (s.note notes).Agrees Δ := by
  have hf : ∀ t : Shape, t.Agrees Δ → (if notes.isEmpty then t else noted t notes).Agrees Δ := by
    intro t ht
    split
    · exact ht
    · rw [Agrees]
      exact ht
  cases s <;> first | exact hf _ h | simpa [note, Agrees] using h

end Shape

/-! ## Outlines of types -/

namespace Shaping

/-- The outline that comes out, unless nothing is known of a type in it. -/
def attempted : Except Stop Shape → Except Stop (Option Shape)
  | .ok s => .ok (some s)
  | .error .unsupported => .ok none
  | .error stop => .error stop

/-- A mark around an outline. -/
def outlineMark (bare : Except Stop Shape) (s : Option Shape) (m : Mark) :
    Except Stop (Option Shape) :=
  match m, s with
  | .check .instead, none => .ok (some .concealed)
  | .check .instead, some s => do
    match ← attempted bare with
    | some b => return some (.replaced s b)
    | none => return some .concealed
  | _, none => .ok none
  | .check _, some s => .ok (some (.guarded s))
  | .bound b, some s => .ok (some (s.foldedBound b))
  | .field facts bounds, some s =>
    .ok (some ((bounds.foldl (fun s b => s.foldedBound b) s).note facts.notes))

/-- Marks around an outline, one after another. -/
def outlineMarks (bare : Except Stop Shape) (marks : List Mark) : Except Stop Shape := do
  match ← marks.foldlM (outlineMark bare) (← attempted bare) with
  | some s => return s
  | none => throw .unsupported

mutual
/-- The outline of a type; none is known of a record that was put together on the spot. -/
def outline (sealedAllowed : Bool) : TypeExpr → Except Stop Shape
  | .plain p =>
    if p = .sealed && !sealedAllowed then throw .unsupported else return .plain p []
  | .model name => return .reference (.model name)
  | .enumeration name => return .reference (.enumeration name)
  | .literal values => if values.isEmpty then throw .noValues else return .literal values
  | .container k item => do return .container k (← outline sealedAllowed item) []
  | .tuple items => do return .tuple (← outlines sealedAllowed items) []
  | .dict k v => do
    let key ← outline sealedAllowed k
    return .dict key (← outline sealedAllowed v) []
  | .union _ members => do
    return unionOf (members.zip (← outlines sealedAllowed members))
  | .marked base marks => do
    return withDefaults marks (← outlineMarks (outline sealedAllowed base) marks)
  | .record _ => throw .nameless

/-- The outlines of types in a row. -/
def outlines (sealedAllowed : Bool) : List TypeExpr → Except Stop (List Shape)
  | [] => return []
  | a :: rest => do
    let s ← outline sealedAllowed a
    return s :: (← outlines sealedAllowed rest)
end

/-- The outlines of fields. -/
def outlineFields (sealedAllowed : Bool) :
    List (Field TypeExpr) → Except Stop (List (Field Shape))
  | [] => return []
  | f :: rest => do
    let s ← outlineMarks (outline sealedAllowed f.type) f.marks
    return { f with type := s, marks := [] } :: (← outlineFields sealedAllowed rest)

end Shaping
end Procedoc
