import Procedoc.Inlining

/-! # References in data

What the theorems about inlining speak of, said without the expansion itself.

* `Json.Part p j`: the value `p` stands somewhere in `j`, at any depth, `j` itself included.
* `Refers e name`: the object with the entries `e` is a reference to the definition `name`.
* `Mentions j name`: some object in `j`, at any depth, is a reference to `name`.
* `SelfContained j`: `j` mentions nothing.
* `Brings schema definitions`: the schema brings these definitions along, all of them objects.

Of such a schema `inlined_of_brings` says that its inlining always answers, and reports the cuts.
-/

namespace Procedoc
set_option autoImplicit false

/-- The values in a value, itself included. -/
inductive Json.Part : Json → Json → Prop where
  | self (j : Json) : Part j j
  | item {p x : Json} {items : List Json} (hx : x ∈ items) (h : Part p x) : Part p (.arr items)
  | entry {p x : Json} {key : String} {e : List (String × Json)} (hx : (key, x) ∈ e)
      (h : Part p x) : Part p (.obj e)

/-- Whether an object is a reference to a definition. -/
def Refers (e : Entries Json) (name : String) : Prop :=
  Entries.get? e "$ref" = some (.str (definitionRef name))

/-- Whether a reference to a definition stands somewhere in a value. -/
def Mentions (j : Json) (name : String) : Prop := ∃ e, Json.Part (.obj e) j ∧ Refers e name

/-- Whether no reference to a definition stands in a value. -/
def SelfContained (j : Json) : Prop := ∀ name, ¬ Mentions j name

/-- The definitions that a schema brings along: none, or those of an object of objects. -/
structure Brings (schema definitions : Entries Json) : Prop where
  defs : Entries.get? schema "$defs" = none ∧ definitions = [] ∨
    Entries.get? schema "$defs" = some (.obj definitions)
  areObjects : ∀ d ∈ definitions, d.2.isObject = true

theorem Brings.read {schema definitions : Entries Json} (h : Brings schema definitions) :
    readDefinitions (Entries.get? schema "$defs") = .ok definitions := by
  rcases h.defs with ⟨hn, rfl⟩ | hs
  · rw [hn, readDefinitions_none]
  · rw [hs, readDefinitions_obj]

/-! ## Which objects are references -/

theorem definitionName?_eq_some_iff {ref name : String} :
    definitionName? ref = some name ↔ ref = definitionRef name := by
  constructor
  · intro h
    simp only [definitionName?, Option.ite_none_right_eq_some, Option.some.injEq] at h
    obtain ⟨hp, rfl⟩ := h
    obtain ⟨rest, hr⟩ := List.isPrefixOf_iff_prefix.mp hp
    apply String.toList_injective
    simp [definitionRef, ← hr]
  · rintro rfl
    exact definitionName?_definitionRef name

theorem Refers.unique {e : Entries Json} {name name' : String} (h : Refers e name)
    (h' : Refers e name') : name = name' := by
  have heq : some (Json.str (definitionRef name)) = some (.str (definitionRef name')) :=
    h.symm.trans h'
  exact definitionRef_inj.mp (Json.str.inj (Option.some.inj heq))

theorem referenceOf?_eq_some_iff {e : Entries Json} {ref name : String} :
    referenceOf? e = some (ref, name) ↔ Refers e name ∧ ref = definitionRef name := by
  unfold referenceOf? Refers
  split
  · rename_i r hr
    rw [hr, Option.map_eq_some_iff]
    simp only [Prod.mk.injEq, definitionName?_eq_some_iff]
    grind
  · rename_i hr
    constructor
    · nofun
    · intro h
      exact absurd h.1 (hr _)

theorem referenceOf?_eq_none_iff {e : Entries Json} :
    referenceOf? e = none ↔ ∀ name, ¬ Refers e name := by
  constructor
  · intro h name hn
    have := referenceOf?_eq_some_iff.mpr ⟨hn, rfl⟩
    rw [h] at this
    cases this
  · intro h
    cases hr : referenceOf? e with
    | none => rfl
    | some p =>
      obtain ⟨ref, name⟩ := p
      exact absurd (referenceOf?_eq_some_iff.mp hr).1 (h name)

/-! ## Where references stand -/

theorem mentions_arr {items : List Json} {name : String} :
    Mentions (.arr items) name ↔ ∃ x ∈ items, Mentions x name := by
  constructor
  · rintro ⟨e, hp, hr⟩
    cases hp with
    | item hx h => exact ⟨_, hx, e, h, hr⟩
  · rintro ⟨x, hx, e, hp, hr⟩
    exact ⟨e, .item hx hp, hr⟩

theorem mentions_obj {e : Entries Json} {name : String} :
    Mentions (.obj e) name ↔ Refers e name ∨ ∃ p ∈ e, Mentions p.2 name := by
  constructor
  · rintro ⟨e', hp, hr⟩
    cases hp with
    | self => exact .inl hr
    | entry hx h => exact .inr ⟨_, hx, e', h, hr⟩
  · rintro (hr | ⟨p, hp, e', hq, hr⟩)
    · exact ⟨e, .self _, hr⟩
    · exact ⟨e', .entry hp hq, hr⟩

theorem selfContained_arr {items : List Json} :
    SelfContained (.arr items) ↔ ∀ x ∈ items, SelfContained x := by
  simp only [SelfContained, mentions_arr]
  grind

theorem selfContained_obj {e : Entries Json} :
    SelfContained (.obj e) ↔ (∀ name, ¬ Refers e name) ∧ ∀ p ∈ e, SelfContained p.2 := by
  simp only [SelfContained, mentions_obj, not_or, not_exists, not_and]
  constructor
  · intro h
    exact ⟨fun name => (h name).1, fun p hp name => (h name).2 p hp⟩
  · rintro ⟨hr, hp⟩ name
    exact ⟨hr name, fun p hm => hp p hm name⟩

theorem selfContained_scalar {j : Json} (ha : ∀ items, j ≠ .arr items) (ho : ∀ e, j ≠ .obj e) :
    SelfContained j := by
  rintro name ⟨e, hp, -⟩
  cases hp with
  | self => exact ho e rfl
  | item => exact ha _ rfl
  | entry => exact ho _ rfl

@[simp] theorem selfContained_str (s : String) : SelfContained (.str s) :=
  selfContained_scalar (by simp) (by simp)

@[simp] theorem selfContained_bool (b : Bool) : SelfContained (.bool b) :=
  selfContained_scalar (by simp) (by simp)

@[simp] theorem selfContained_null : SelfContained .null :=
  selfContained_scalar (by simp) (by simp)

/-! ## Schemas that bring objects -/

theorem isObject_expand {definitions : Entries Json} {stack : List String} {j : Json}
    (h : j.isObject = true) : (expand definitions stack j).value.isObject = true := by
  induction stack, j using expand_induction definitions with
  | scalar stack j ha ho => rwa [expand_scalar _ _ ha ho]
  | arr => cases h
  | plain stack e hr => rw [expand_plain hr]; rfl
  | cut stack e ref name hr hc => rw [expand_cut hr hc]; rfl
  | followed stack e ref name target hr hs hd => rw [expand_followed hr hs hd]; rfl

theorem mishaps_followed {definitions : Entries Json} {stack : List String}
    {e : List (String × Json)} {ref name : String} {target : Json}
    (hd : ∀ d ∈ definitions, d.2.isObject = true) (hr : referenceOf? e = some (ref, name))
    (hs : name ∉ stack) (ht : Entries.get? definitions name = some target) :
    (expand definitions stack (.obj e)).mishaps =
      (expandEntries definitions stack e).mishaps
        ++ (expand definitions (name :: stack) target).mishaps := by
  have hobj : (expand definitions (name :: stack) target).value.isObject = true :=
    isObject_expand (hd _ (Entries.mem_of_get? ht))
  rw [expand_followed hr hs ht, hobj]
  simp

theorem mishaps_expand {definitions : Entries Json}
    (hd : ∀ d ∈ definitions, d.2.isObject = true) (stack : List String) (j : Json) :
    ∀ m ∈ (expand definitions stack j).mishaps, ∃ ref, m = .cut ref := by
  induction stack, j using expand_induction definitions with
  | scalar stack j ha ho => simp [expand_scalar _ _ ha ho]
  | arr stack items ih =>
    intro m hm
    rw [expand_arr, mishaps_expandList, List.mem_flatMap] at hm
    obtain ⟨x, hx, hm⟩ := hm
    exact ih x hx m hm
  | plain stack e hr ih =>
    intro m hm
    rw [expand_plain hr, mishaps_expandEntries, List.mem_flatMap] at hm
    obtain ⟨p, hp, hm⟩ := hm
    exact ih p hp m hm
  | cut stack e ref name hr hc ih =>
    intro m hm
    rw [expand_cut hr hc, mishaps_expandEntries, List.mem_append, List.mem_flatMap] at hm
    rcases hm with ⟨p, hp, hm⟩ | hm
    · exact ih p hp m hm
    · exact ⟨ref, List.mem_singleton.mp hm⟩
  | followed stack e ref name target hr hs ht ih iht =>
    intro m hm
    rw [mishaps_followed hd hr hs ht, mishaps_expandEntries, List.mem_append,
      List.mem_flatMap] at hm
    rcases hm with ⟨p, hp, hm⟩ | hm
    · exact ih p hp m hm
    · exact iht m hm

def cuts (mishaps : List Mishap) : List String :=
  mishaps.filterMap fun
    | .cut ref => some ref
    | .unmergeable => none

theorem settle_cuts {mishaps : List Mishap} (h : ∀ m ∈ mishaps, ∃ ref, m = .cut ref) :
    settle mishaps = ⟨(cuts mishaps).map .referenceCut, .ok ()⟩ := by
  induction mishaps with
  | nil => rfl
  | cons m rest ih =>
    obtain ⟨ref, rfl⟩ := h m (List.mem_cons_self ..)
    rw [settle, Traced.bind_of_ok (a := ()) _ rfl, ih fun m hm => h m (List.mem_cons_of_mem _ hm)]
    rfl

theorem cuts_eq_nil_iff {mishaps : List Mishap} (h : ∀ m ∈ mishaps, ∃ ref, m = .cut ref) :
    cuts mishaps = [] ↔ mishaps = [] := by
  cases mishaps with
  | nil => simp [cuts]
  | cons m rest =>
    obtain ⟨ref, rfl⟩ := h m (List.mem_cons_self ..)
    simp [cuts]

/-- Inlining never fails where definitions are objects: it answers, and reports what it cut. -/
theorem inlined_of_brings {schema definitions : Entries Json} (h : Brings schema definitions) :
    inlined schema =
      ⟨(cuts (expand definitions [] (.obj (Entries.without schema "$defs"))).mishaps).map
          .referenceCut,
        .ok (expand definitions [] (.obj (Entries.without schema "$defs"))).value⟩ := by
  have hread : (liftM (readDefinitions (Entries.get? schema "$defs")) :
      Traced (Entries Json)).outcome = .ok definitions := h.read
  have hsettle := settle_cuts
    (mishaps_expand h.areObjects [] (.obj (Entries.without schema "$defs")))
  rw [inlined, Traced.bind_of_ok _ hread, Traced.bind_of_ok (a := ()) _ (by rw [hsettle]),
    hsettle]
  simp [h.read, liftM, monadLift, MonadLift.monadLift, Traced.ofExcept]

end Procedoc
