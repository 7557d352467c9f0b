import Procedoc.Proofs.Likeness
import Procedoc.Proofs.Shaping.Declaring

/-! # Norms for what is written down

A `Norm` says which keys data may have, which values may be given, and from which number on records
may be put together.

* `Json.Fits` goes through the keys of data and tells keywords from names of properties.
* `Obeys` says of bounds, notes, facts, types and shapes that all data and all values in them are
  such as a norm allows, and that what has a definition is.
-/

namespace Procedoc
set_option autoImplicit false

/-! ## Keys in data -/

namespace Json

/-- Whether the keys of the object under a keyword are names of properties. -/
def takesNames (keyword : String) : Bool :=
  keyword == "properties" || keyword == "patternProperties"

mutual
/-- Whether all keys in data are of a kind, which may depend on what stands under a key and on
whether it is the name of a property; `named` tells whether the keys of the data itself are such
names. -/
def Fits (P : Bool → String → Json → Prop) (named : Bool) : Json → Prop
  | arr items => FitsAll P items
  | obj e => FitsEntries P named e
  | _ => True

def FitsAll (P : Bool → String → Json → Prop) : List Json → Prop
  | [] => True
  | j :: rest => Fits P false j ∧ FitsAll P rest

def FitsEntries (P : Bool → String → Json → Prop) (named : Bool) : List (String × Json) → Prop
  | [] => True
  | (key, j) :: rest =>
    (P named key j ∧ Fits P (!named && takesNames key) j) ∧ FitsEntries P named rest
end

attribute [grind =] Fits FitsAll FitsEntries

variable {P Q : Bool → String → Json → Prop} {named : Bool}

theorem fits_arr {items : List Json} : Fits P named (.arr items) ↔ ∀ j ∈ items, Fits P false j := by
  rw [Fits]
  induction items with
  | nil => simp [FitsAll]
  | cons j rest ih => rw [FitsAll, ih, List.forall_mem_cons]

theorem fits_obj {e : List (String × Json)} : Fits P named (.obj e) ↔
    ∀ p ∈ e, P named p.1 p.2 ∧ Fits P (!named && takesNames p.1) p.2 := by
  rw [Fits]
  induction e with
  | nil => simp [FitsEntries]
  | cons p rest ih => rw [FitsEntries, ih, List.forall_mem_cons]

theorem fits_scalar {j : Json} (ha : ∀ items, j ≠ .arr items) (ho : ∀ e, j ≠ .obj e) :
    Fits P named j := by
  cases j with
  | arr items => exact (ha items rfl).elim
  | obj e => exact (ho e rfl).elim
  | _ => trivial

@[simp] theorem fits_str (s : String) : Fits P named (.str s) := trivial

@[simp] theorem fits_bool (b : Bool) : Fits P named (.bool b) := trivial

@[simp] theorem fits_strings (texts : List String) : Fits P named (.strings texts) := by
  refine fits_arr.mpr fun j hj => ?_
  obtain ⟨s, -, rfl⟩ := List.mem_map.mp hj
  trivial

theorem Fits.mono (h : ∀ named key j, P named key j → Q named key j) {j : Json}
    (hj : Fits P named j) : Fits Q named j := by
  induction j using parts_induction generalizing named with
  | scalar j ha ho => exact fits_scalar ha ho
  | arr items ih => exact fits_arr.mpr fun x hx => ih x hx (fits_arr.mp hj x hx)
  | obj e ih =>
    rw [fits_obj] at hj ⊢
    exact fun p hp => ⟨h _ _ _ (hj p hp).1, ih p hp (hj p hp).2⟩

/-- Where names and keywords are of one kind, it does not matter which of them keys are. -/
theorem Fits.renamed {K : String → Prop} {j : Json} {named' : Bool}
    (hj : Fits (fun _ key _ => K key) named j) : Fits (fun _ key _ => K key) named' j := by
  induction j using parts_induction generalizing named named' with
  | scalar j ha ho => exact fits_scalar ha ho
  | arr items ih => exact fits_arr.mpr (fits_arr.mp hj)
  | obj e ih =>
    rw [fits_obj] at hj ⊢
    exact fun p hp => ⟨(hj p hp).1, ih p hp (hj p hp).2⟩

end Json

/-! ## Norms -/

/-- What may be written down. -/
structure Norm where
  /-- The first number that a record may have which is put together. -/
  first : Nat
  /-- The keys that data may have. -/
  key : String → Prop
  /-- The values that may be given. -/
  value : Value → Prop
  /-- The words for references and definitions alone may be ruled out. -/
  key_of_ne : ∀ k, k ≠ "$ref" → k ≠ "$defs" → key k
  /-- Values are no narrower than data. -/
  value_of_data : ∀ j : Json, j.Fits (fun _ k _ => key k) false → value (.plain j)

/-- Whether all keys in data are such as a norm allows. -/
def Json.Obeys (N : Norm) (j : Json) : Prop := j.Fits (fun _ key _ => N.key key) false

/-- Whether something that has a definition was declared, or put together with a number that a rule
allows. -/
def Owner.Obeys (N : Norm) : Owner → Prop
  | model _ | enumeration _ => True
  | made _ number => N.first ≤ number

section Marks
variable (N : Norm)

def Bound.Obeys (b : Bound) : Prop := b.limit.Obeys N

def Fallback.Obeys (f : Fallback) : Prop := ∀ v, f.value? = some v → N.value v

/-- Whether entries that are written by hand are such as a norm allows. -/
def Extra.Obeys : Extra → Prop
  | entries e => (Json.obj e).Obeys N
  | hook => True

structure Notes.Obeys (n : Notes) : Prop where
  updates : (Json.obj n.updates).Obeys N
  extra : ∀ x, n.extra = some x → x.Obeys N

structure Facts.Obeys (f : Facts) : Prop where
  fallback : f.fallback.Obeys N
  examples : ∀ es, f.examples = some es → (Json.arr es).Obeys N
  extra : ∀ x, f.extra = some x → x.Obeys N

def Mark.Obeys : Mark → Prop
  | check _ => True
  | bound b => b.Obeys N
  | field facts bounds => facts.Obeys N ∧ ∀ b ∈ bounds, b.Obeys N

end Marks

/-! ## Types -/

mutual
/-- Whether all that is said in a type is such as a norm allows; `makes` tells whether there may be
records in it that are put together on the spot. -/
def TypeExpr.Obeys (N : Norm) (makes : Prop) : TypeExpr → Prop
  | .plain _ | .model _ | .enumeration _ => True
  | .literal values => ∀ v ∈ values, N.value v
  | .container _ item => Obeys N makes item
  | .tuple items | .union _ items => AllObey N makes items
  | .dict k v => Obeys N makes k ∧ Obeys N makes v
  | .marked base marks => Obeys N makes base ∧ ∀ m ∈ marks, m.Obeys N
  | .record ⟨_, _, config, fields⟩ => makes ∧ (Json.obj config).Obeys N ∧ FieldsObey N makes fields

def TypeExpr.AllObey (N : Norm) (makes : Prop) : List TypeExpr → Prop
  | [] => True
  | a :: rest => TypeExpr.Obeys N makes a ∧ AllObey N makes rest

def TypeExpr.FieldsObey (N : Norm) (makes : Prop) : List (Field TypeExpr) → Prop
  | [] => True
  | ⟨_, type, marks, facts, _⟩ :: rest =>
    (TypeExpr.Obeys N makes type ∧ (∀ m ∈ marks, m.Obeys N) ∧ facts.Obeys N) ∧
      FieldsObey N makes rest
end

attribute [grind =] TypeExpr.Obeys TypeExpr.AllObey TypeExpr.FieldsObey

/-- Whether all that is said of a field and in its type is such as a norm allows. -/
structure Field.Obeys (N : Norm) (makes : Prop) (f : Field TypeExpr) : Prop where
  type : f.type.Obeys N makes
  marks : ∀ m ∈ f.marks, m.Obeys N
  facts : f.facts.Obeys N

structure Record.Obeys (N : Norm) (makes : Prop) (r : Record TypeExpr) : Prop where
  config : (Json.obj r.config).Obeys N
  fields : ∀ f ∈ r.fields, f.Obeys N makes

/-! ## Shapes -/

mutual
/-- Whether all that is said in a shape is such as a norm allows, and all that it refers to or
defines. -/
def Shape.Obeys (N : Norm) : Shape → Prop
  | .plain _ bounds => ∀ b ∈ bounds, b.Obeys N
  | .literal values => ∀ v ∈ values, N.value v
  | .container _ item bounds => Obeys N item ∧ ∀ b ∈ bounds, b.Obeys N
  | .tuple items bounds => AllObey N items ∧ ∀ b ∈ bounds, b.Obeys N
  | .dict k v bounds => Obeys N k ∧ Obeys N v ∧ ∀ b ∈ bounds, b.Obeys N
  | .union members => AllObey N members
  | .nullable inner | .guarded inner => Obeys N inner
  | .replaced inner bare => Obeys N inner ∧ Obeys N bare
  | .concealed | .shared _ => True
  | .chained inner pattern => Obeys N inner ∧ pattern.Obeys N
  | .defaulted inner fallback => Obeys N inner ∧ fallback.Obeys N
  | .reference key => key.owner.Obeys N
  | .record key ⟨_, _, config, fields⟩ =>
    key.owner.Obeys N ∧ (Json.obj config).Obeys N ∧ FieldsObey N fields
  | .enumeration key e => key.owner.Obeys N ∧ ∀ j ∈ e.values, j.Obeys N
  | .noted inner notes => Obeys N inner ∧ notes.Obeys N

def Shape.AllObey (N : Norm) : List Shape → Prop
  | [] => True
  | s :: rest => Shape.Obeys N s ∧ AllObey N rest

def Shape.FieldsObey (N : Norm) : List (Field Shape) → Prop
  | [] => True
  | ⟨_, s, _, facts, _⟩ :: rest => (Shape.Obeys N s ∧ facts.Obeys N) ∧ FieldsObey N rest
end

attribute [grind =] Shape.Obeys Shape.AllObey Shape.FieldsObey

structure Layout.Obeys (N : Norm) (l : Layout) : Prop where
  top : l.top.Obeys N
  definitions : ∀ p ∈ l.definitions, p.1.owner.Obeys N ∧ p.2.Obeys N

/-- Whether all that is declared in a catalog, and all that is known of it, is such as a norm
allows. -/
structure Catalog.Obeys (N : Norm) (c : Catalog) : Prop where
  models : ∀ r ∈ c.models, r.Obeys N False
  enumerations : ∀ e ∈ c.enumerations, ∀ j ∈ e.values, j.Obeys N
  layouts : ∀ p ∈ c.layouts, p.2.Obeys N
  remarks : ∀ p ∈ c.remarks, p.2.Obeys N

/-! ## Facts that go together -/

section Facts
variable {N : Norm}

theorem Json.obeys_obj {e : List (String × Json)} :
    (Json.obj e).Obeys N ↔ ∀ p ∈ e, N.key p.1 ∧ p.2.Obeys N := by
  rw [Obeys, fits_obj]
  exact forall₂_congr fun p _ => and_congr_right fun _ => ⟨fun h => h.renamed, fun h => h.renamed⟩

theorem Json.obeys_arr {items : List Json} :
    (Json.arr items).Obeys N ↔ ∀ j ∈ items, j.Obeys N := fits_arr

@[simp] theorem Json.obeys_str (s : String) : (Json.str s).Obeys N := trivial

theorem Norm.entry (N : Norm) (keyword : String) (hr : keyword ≠ "$ref") (hd : keyword ≠ "$defs")
    {j : Json} (hj : j.Obeys N) : N.key keyword ∧ j.Obeys N := ⟨N.key_of_ne keyword hr hd, hj⟩

theorem Json.obeys_nil : (Json.obj []).Obeys N := obeys_obj.mpr fun _ hp => by cases hp

theorem Json.obeys_override {base top : Entries Json} (hb : (Json.obj base).Obeys N)
    (ht : (Json.obj top).Obeys N) : (Json.obj (Entries.override base top)).Obeys N := by
  rw [obeys_obj] at hb ht ⊢
  exact fun p hp => (Entries.mem_of_mem_override hp).elim (hb p) (ht p)

theorem Json.Obeys.get? {e : Entries Json} (h : (Json.obj e).Obeys N) {key : String} {j : Json}
    (hj : Entries.get? e key = some j) : j.Obeys N :=
  (obeys_obj.mp h _ (Entries.mem_of_get? hj)).2

theorem Extra.obeys_merge {a b : Option Extra} (ha : ∀ x, a = some x → x.Obeys N)
    (hb : ∀ x, b = some x → x.Obeys N) : ∀ x, Extra.merge a b = some x → x.Obeys N := by
  unfold Extra.merge
  split
  · rintro x ⟨⟩
    exact Json.obeys_override (ha _ rfl) (hb _ rfl)
  · rintro x ⟨⟩
    exact ha _ rfl
  · intro x hx
    rcases Option.or_eq_some_iff.mp hx with hx | ⟨-, hx⟩
    · exact hb x hx
    · exact ha x hx

theorem Notes.obeys_empty : Notes.empty.Obeys N := ⟨Json.obeys_nil, fun _ h => by cases h⟩

theorem Notes.Obeys.merge {earlier later : Notes} (h : earlier.Obeys N) (h' : later.Obeys N) :
    (earlier.merge later).Obeys N :=
  ⟨Json.obeys_override h.updates h'.updates, Extra.obeys_merge h.extra h'.extra⟩

theorem Facts.obeys_empty : ({} : Facts).Obeys N where
  fallback _ h := by cases h
  examples _ h := by cases h
  extra _ h := by cases h

theorem Facts.Obeys.spread {f : Facts} (h : f.Obeys N) : f.spread.Obeys N := by
  unfold Facts.spread
  split
  · exact h
  · exact ⟨h.fallback, h.examples, h.extra⟩

theorem Facts.Obeys.merge {earlier later : Facts} (h : earlier.Obeys N) (h' : later.Obeys N) :
    (earlier.merge later).Obeys N where
  fallback := by
    simp only [Facts.merge]
    split
    · exact h.fallback
    · exact h'.fallback
  examples es hes := by
    rcases Option.or_eq_some_iff.mp hes with hes | ⟨-, hes⟩
    · exact h'.examples es hes
    · exact h.examples es hes
  extra := Extra.obeys_merge h.extra h'.extra

theorem Facts.Obeys.notes {f : Facts} (h : f.Obeys N) : f.notes.Obeys N where
  updates := by
    refine Json.obeys_obj.mpr fun p hp => ?_
    obtain ⟨o, ho, hsome⟩ := List.mem_filterMap.mp hp
    obtain rfl : o = some p := hsome
    simp only [List.mem_cons, List.not_mem_nil, or_false] at ho
    rcases ho with ho | ho | ho | ho
    · obtain ⟨t, -, rfl⟩ := Option.map_eq_some_iff.mp ho.symm
      exact N.entry "title" (by decide) (by decide) trivial
    · obtain ⟨t, -, rfl⟩ := Option.map_eq_some_iff.mp ho.symm
      exact N.entry "description" (by decide) (by decide) trivial
    · obtain ⟨es, hes, rfl⟩ := Option.map_eq_some_iff.mp ho.symm
      exact N.entry "examples" (by decide) (by decide) (h.examples es hes)
    · split at ho
      · cases ho
        exact N.entry "deprecated" (by decide) (by decide) trivial
      · cases ho
  extra x hx := by
    unfold Facts.notes at hx
    dsimp only at hx
    split at hx
    · rename_i e he
      split at hx
      · cases hx
      · cases hx
        exact h.extra _ he
    · exact h.extra x hx

theorem Field.obeys_factsOf {marks : List Mark} (h : ∀ m ∈ marks, m.Obeys N) :
    (Field.factsOf marks).Obeys N := by
  refine List.foldlRecOn marks _ Facts.obeys_empty fun facts hf m hm => ?_
  cases m with
  | field facts' bounds => exact hf.merge (h _ hm).1.spread
  | _ => exact hf

theorem Field.obeys_flatten {m : Mark} (h : m.Obeys N) : ∀ n ∈ Field.flatten m, n.Obeys N := by
  unfold flatten
  split
  · intro n hn
    obtain ⟨b, hb, rfl⟩ := List.mem_map.mp hn
    exact h.2 b hb
  · exact List.forall_mem_singleton.mpr h

theorem Field.fallbackObeys_of_mem {marks : List Mark} (h : ∀ m ∈ marks, m.Obeys N) :
    ∀ f ∈ Field.fallbacksOf marks, f.Obeys N := by
  intro f hf
  obtain ⟨m, hm, hmatch⟩ := List.mem_filterMap.mp hf
  split at hmatch
  · cases hmatch
    exact (h _ hm).1.fallback
  · cases hmatch

end Facts

/-! ## Types that are built -/

namespace TypeExpr
variable {N : Norm} {makes : Prop}

theorem allObey_iff {types : List TypeExpr} : AllObey N makes types ↔ ∀ a ∈ types, a.Obeys N makes := by
  induction types with
  | nil => simp [AllObey]
  | cons a rest ih => rw [AllObey, ih, List.forall_mem_cons]

theorem fieldsObey_iff {fields : List (Field TypeExpr)} :
    FieldsObey N makes fields ↔ ∀ f ∈ fields, f.Obeys N makes := by
  induction fields with
  | nil => simp [FieldsObey]
  | cons f rest ih =>
    rw [FieldsObey, ih, List.forall_mem_cons]
    exact and_congr_left fun _ => ⟨fun h => ⟨h.1, h.2.1, h.2.2⟩, fun h => ⟨h.type, h.marks, h.facts⟩⟩

theorem obeys_record {r : Record TypeExpr} :
    (record r).Obeys N makes ↔ makes ∧ r.Obeys N makes := by
  obtain ⟨name, doc, config, fields⟩ := r
  rw [Obeys, fieldsObey_iff]
  exact and_congr_right fun _ => ⟨fun h => ⟨h.1, h.2⟩, fun h => ⟨h.config, h.fields⟩⟩

theorem Obeys.withMarks {a : TypeExpr} (h : a.Obeys N makes) {marks : List Mark}
    (hm : ∀ m ∈ marks, m.Obeys N) : (a.withMarks marks).Obeys N makes := by
  unfold TypeExpr.withMarks
  split
  · rw [Obeys] at h ⊢
    exact ⟨h.1, fun m hmem => (List.mem_append.mp hmem).elim (h.2 m) (hm m)⟩
  · split
    · exact h
    · rw [Obeys]
      exact ⟨h, hm⟩

theorem Obeys.unmarked {a : TypeExpr} (h : a.Obeys N makes) :
    a.unmarked.1.Obeys N makes ∧ ∀ m ∈ a.unmarked.2, m.Obeys N := by
  unfold TypeExpr.unmarked
  split
  · rwa [Obeys] at h
  · exact ⟨h, fun _ hm => by cases hm⟩

theorem Obeys.members {a : TypeExpr} (h : a.Obeys N makes) : ∀ m ∈ a.members, m.Obeys N makes := by
  unfold TypeExpr.members
  split
  · rw [Obeys, allObey_iff] at h
    exact h
  · exact List.forall_mem_singleton.mpr h

theorem obeys_unionOf {form : UnionForm} {types : List TypeExpr}
    (h : ∀ a ∈ types, a.Obeys N makes) : (unionOf form types).Obeys N makes := by
  have hkept : ∀ rest kept : List TypeExpr, (∀ a ∈ rest, a.Obeys N makes) →
      (∀ a ∈ kept, a.Obeys N makes) → ∀ a ∈ rest.foldl
        (fun kept a => if kept.any (same a) then kept else kept ++ [a]) kept, a.Obeys N makes := by
    intro rest
    induction rest with
    | nil => exact fun _ _ hkept => hkept
    | cons a rest ih =>
      intro kept hall hkept
      rw [List.forall_mem_cons] at hall
      refine ih _ hall.2 ?_
      dsimp only
      split
      · exact hkept
      · exact List.forall_mem_append.mpr ⟨hkept, List.forall_mem_singleton.mpr hall.1⟩
  have hmembers : ∀ a ∈ types.flatMap TypeExpr.members, a.Obeys N makes := by
    intro a ha
    obtain ⟨b, hb, ha⟩ := List.mem_flatMap.mp ha
    exact (h b hb).members a ha
  have hall : ∀ a ∈ alternatives types, a.Obeys N makes :=
    hkept _ [] hmembers fun _ ha => by cases ha
  unfold unionOf
  split
  · rename_i a heq
    exact hall a (heq ▸ List.mem_singleton_self a)
  · rw [Obeys, allObey_iff]
    exact hall

theorem Obeys.optional {a : TypeExpr} (h : a.Obeys N makes) : a.optional.Obeys N makes :=
  obeys_unionOf (List.forall_mem_cons.mpr ⟨h, List.forall_mem_singleton.mpr trivial⟩)

theorem Obeys.withoutNone {a : TypeExpr} (h : a.Obeys N makes) : a.withoutNone.Obeys N makes := by
  unfold TypeExpr.withoutNone
  split
  · rename_i form ms
    rw [Obeys, allObey_iff] at h
    have hkept : ∀ m ∈ ms.filter fun m => !m.isNone, m.Obeys N makes :=
      fun m hm => h m (List.mem_filter.mp hm).1
    split
    · rw [Obeys, allObey_iff]
      exact h
    · rename_i m heq
      exact hkept m (heq ▸ List.mem_singleton_self m)
    · exact obeys_unionOf hkept
  · exact h

end TypeExpr

/-! ## Shapes that are built -/

namespace Shape
variable {N : Norm}

theorem allObey_iff {shapes : List Shape} : AllObey N shapes ↔ ∀ s ∈ shapes, s.Obeys N := by
  induction shapes with
  | nil => simp [AllObey]
  | cons s rest ih => rw [AllObey, ih, List.forall_mem_cons]

theorem fieldsObey_iff {fields : List (Field Shape)} :
    FieldsObey N fields ↔ ∀ f ∈ fields, f.type.Obeys N ∧ f.facts.Obeys N := by
  induction fields with
  | nil => simp [FieldsObey]
  | cons f rest ih => rw [FieldsObey, ih, List.forall_mem_cons]

theorem obeys_record {key : Key} {r : Record Shape} : (record key r).Obeys N ↔ key.owner.Obeys N ∧
    (Json.obj r.config).Obeys N ∧ ∀ f ∈ r.fields, f.type.Obeys N ∧ f.facts.Obeys N := by
  obtain ⟨name, doc, config, fields⟩ := r
  rw [Obeys, fieldsObey_iff]

theorem Obeys.note {s : Shape} (h : s.Obeys N) {notes : Notes} (hn : notes.Obeys N) :
    (s.note notes).Obeys N := by
  unfold Shape.note
  split
  · rw [Obeys] at h ⊢
    exact ⟨h.1, h.2.merge hn⟩
  · split
    · exact h
    · rw [Obeys]
      exact ⟨h, hn⟩

theorem Obeys.underKey {s : Shape} (h : s.Obeys N) {key : Key} (hk : key.owner.Obeys N) :
    (s.underKey key).Obeys N := by
  unfold Shape.underKey
  split
  · rw [obeys_record] at h ⊢
    exact ⟨hk, h.2⟩
  · rw [Obeys] at h ⊢
    exact ⟨hk, h.2⟩
  · exact h

theorem besideKeyword_ne_words (k : BoundKind) (isAroundList : Bool) :
    k.besideKeyword isAroundList ≠ "$ref" ∧ k.besideKeyword isAroundList ≠ "$defs" := by
  cases k <;> cases isAroundList <;> exact ⟨by decide, by decide⟩

theorem Obeys.beside {s : Shape} (h : s.Obeys N) {b : Bound} (hb : b.Obeys N) :
    (s.beside b).Obeys N := by
  unfold Shape.beside
  split
  · rw [Obeys]
    exact ⟨h, hb⟩
  · obtain ⟨hr, hd⟩ := besideKeyword_ne_words b.kind s.isAroundList
    rw [Obeys, Obeys]
    exact ⟨h, Json.obeys_obj.mpr (List.forall_mem_singleton.mpr (N.entry _ hr hd hb)),
      fun _ hx => by cases hx⟩

theorem obeys_put {bounds : List Bound} (h : ∀ a ∈ bounds, a.Obeys N) {b : Bound}
    (hb : b.Obeys N) : ∀ a ∈ Bound.put bounds b, a.Obeys N := by
  induction bounds with
  | nil => exact List.forall_mem_singleton.mpr hb
  | cons a rest ih =>
    rw [List.forall_mem_cons] at h
    rw [Bound.put]
    split
    · exact List.forall_mem_cons.mpr ⟨hb, h.2⟩
    · exact List.forall_mem_cons.mpr ⟨h.1, ih h.2⟩

theorem Obeys.putBound {b : Bound} (hb : b.Obeys N) {s : Shape} (h : s.Obeys N) :
    (s.putBound b).Obeys N := by
  fun_induction Shape.putBound b s with
  | case1 p bs =>
    rw [Obeys] at h ⊢
    exact obeys_put h hb
  | case2 c item bs =>
    rw [Obeys] at h ⊢
    exact ⟨h.1, obeys_put h.2 hb⟩
  | case3 items bs =>
    rw [Obeys] at h ⊢
    exact ⟨h.1, obeys_put h.2 hb⟩
  | case4 k v bs =>
    rw [Obeys] at h ⊢
    exact ⟨h.1, h.2.1, obeys_put h.2.2 hb⟩
  | case5 inner notes ih =>
    rw [Obeys] at h ⊢
    exact ⟨ih h.1, h.2⟩
  | case6 => exact h

theorem Obeys.target? {s : Shape} (h : s.Obeys N) {key : Key} (hk : s.target? = some key) :
    key.owner.Obeys N := by
  fun_induction Shape.target? s with
  | case1 key' =>
    cases hk
    rwa [Obeys] at h
  | case2 anchor =>
    cases hk
    trivial
  | case3 inner notes ih =>
    rw [Obeys] at h
    exact ih h.1 hk
  | case4 => cases hk

theorem Obeys.bound {definition? : Key → Option Shape}
    (hd : ∀ key d, definition? key = some d → d.Obeys N) {b : Bound} (hb : b.Obeys N) {s : Shape}
    (h : s.Obeys N) : (s.bound definition? b).Obeys N := by
  fun_induction Shape.bound definition? b s with
  | case1 inner ih =>
    rw [Obeys] at h ⊢
    exact ih h
  | case2 inner notes ih =>
    rw [Obeys, Obeys] at h ⊢
    exact ⟨ih h.1, h.2⟩
  | case3 s _ _ key hkey d hfound =>
    have howner := h.target? hkey
    have hcopy : (d.underKey { key with bound := some b }).Obeys N :=
      (hd key d hfound).underKey howner
    exact hcopy.beside hb
  | case4 | case6 => exact h.beside hb
  | case5 => exact h.putBound hb

theorem Obeys.boundAll {definition? : Key → Option Shape}
    (hd : ∀ key d, definition? key = some d → d.Obeys N) {bounds : List Bound}
    (hb : ∀ b ∈ bounds, b.Obeys N) {s : Shape} (h : s.Obeys N) :
    (s.boundAll definition? bounds).Obeys N := by
  induction bounds generalizing s with
  | nil => exact h
  | cons b rest ih =>
    rw [List.forall_mem_cons] at hb
    exact ih hb.2 (h.bound hd hb.1)

end Shape
end Procedoc
