import Mathlib.Data.List.Perm.Subperm
import Procedoc.Proofs.Inlining.Reference

/-! # The visits of an expansion

`recorded` is `expand` with a record of its visits: of each one, as it ends, what was open around it,
what it had to expand, what it answered, and which reference it cut.  `recorded_expansion` says that
the record changes nothing.

The record shows that inlining ends, however definitions lead to each other, and what it does at a
reference (`inlined_opens_once`).  The invariant is that of the stack: its names differ, and each of
them has a definition, so that it can never be longer than there are definitions (`IsPath`).
-/

namespace Procedoc
set_option autoImplicit false

/-! ## Records -/

/-- A visit of the expansion to a value: one of its recursive calls. -/
structure Visit where
  /-- The definitions that were open around it, the innermost first. -/
  stack : List String
  value : Json
  answer : Json
  /-- The reference that the visit itself cut, if it did. -/
  cut : Option String

/-- What something expands to, and the visits that were made for it, in the order in which they
ended. -/
structure Recorded (α : Type) where
  expansion : Expansion α
  visits : List Visit

/-- The end of a visit, after those that were made for it. -/
def Recorded.ending (stack : List String) (value : Json) (cut : Option String)
    (visits : List Visit) (x : Expansion Json) : Recorded Json :=
  ⟨x, visits ++ [⟨stack, value, x.value, cut⟩]⟩

mutual
/-- The expansion of a value with its visits. -/
def recorded (definitions : Entries Json) (stack : List String) (j : Json) : Recorded Json :=
  match j with
  | .obj e =>
    let inside := recordedEntries definitions stack e
    match referenceOf? e with
    | none =>
      .ending stack (.obj e) none inside.visits
        ⟨.obj inside.expansion.value, inside.expansion.mishaps⟩
    | some (ref, name) =>
      let siblings := Json.obj (Entries.without inside.expansion.value "$ref")
      if hs : stack.contains name then
        .ending stack (.obj e) (some ref) inside.visits
          ⟨siblings, inside.expansion.mishaps ++ [.cut ref]⟩
      else
        match hd : Entries.get? definitions name with
        | none =>
          .ending stack (.obj e) (some ref) inside.visits
            ⟨siblings, inside.expansion.mishaps ++ [.cut ref]⟩
        | some target =>
          have := length_closed_lt (Bool.eq_false_iff.mpr hs) hd
          let x := recorded definitions (name :: stack) target
          .ending stack (.obj e) none (inside.visits ++ x.visits)
            ⟨x.expansion.value.override siblings,
              inside.expansion.mishaps ++ x.expansion.mishaps
                ++ if x.expansion.value.isObject then [] else [.unmergeable]⟩
  | .arr items =>
    let inside := recordedList definitions stack items
    .ending stack (.arr items) none inside.visits
      ⟨.arr inside.expansion.value, inside.expansion.mishaps⟩
  | j => .ending stack j none [] ⟨j, []⟩
termination_by ((closed definitions stack).length, sizeOf j)

def recordedList (definitions : Entries Json) (stack : List String) (items : List Json) :
    Recorded (List Json) :=
  match items with
  | [] => ⟨⟨[], []⟩, []⟩
  | j :: rest =>
    let x := recorded definitions stack j
    let xs := recordedList definitions stack rest
    ⟨⟨x.expansion.value :: xs.expansion.value, x.expansion.mishaps ++ xs.expansion.mishaps⟩,
      x.visits ++ xs.visits⟩
termination_by ((closed definitions stack).length, sizeOf items)

def recordedEntries (definitions : Entries Json) (stack : List String)
    (entries : List (String × Json)) : Recorded (List (String × Json)) :=
  match entries with
  | [] => ⟨⟨[], []⟩, []⟩
  | (key, j) :: rest =>
    let x := recorded definitions stack j
    let xs := recordedEntries definitions stack rest
    ⟨⟨(key, x.expansion.value) :: xs.expansion.value,
      x.expansion.mishaps ++ xs.expansion.mishaps⟩, x.visits ++ xs.visits⟩
termination_by ((closed definitions stack).length, sizeOf entries)
end

variable {definitions : Entries Json}

/-! ## The record changes nothing -/

section Parts
variable {stack : List String}

theorem recordedList_expansion {items : List Json}
    (h : ∀ x ∈ items, (recorded definitions stack x).expansion = expand definitions stack x) :
    (recordedList definitions stack items).expansion = expandList definitions stack items := by
  induction items with
  | nil => rw [recordedList, expandList]
  | cons j rest ih =>
    rw [recordedList, expandList, ih fun x hx => h x (List.mem_cons_of_mem _ hx),
      h j (List.mem_cons_self ..)]

theorem recordedEntries_expansion {e : List (String × Json)}
    (h : ∀ p ∈ e, (recorded definitions stack p.2).expansion = expand definitions stack p.2) :
    (recordedEntries definitions stack e).expansion = expandEntries definitions stack e := by
  induction e with
  | nil => rw [recordedEntries, expandEntries]
  | cons p rest ih =>
    rw [recordedEntries, expandEntries, ih fun q hq => h q (List.mem_cons_of_mem _ hq),
      h p (List.mem_cons_self ..)]

theorem recordedList_visits (items : List Json) : (recordedList definitions stack items).visits =
    items.flatMap fun x => (recorded definitions stack x).visits := by
  induction items with
  | nil => rw [recordedList, List.flatMap_nil]
  | cons j rest ih => rw [recordedList, List.flatMap_cons, ← ih]

theorem recordedEntries_visits (e : List (String × Json)) :
    (recordedEntries definitions stack e).visits =
      e.flatMap fun p => (recorded definitions stack p.2).visits := by
  induction e with
  | nil => rw [recordedEntries, List.flatMap_nil]
  | cons p rest ih => rw [recordedEntries, List.flatMap_cons, ← ih]

end Parts

theorem recorded_expansion (stack : List String) (j : Json) :
    (recorded definitions stack j).expansion = expand definitions stack j := by
  induction stack, j using expand_induction definitions with
  | scalar stack j ha ho =>
    rw [expand_scalar _ _ ha ho, recorded]
    · rfl
    · exact ho
    · exact ha
  | arr stack items ih =>
    rw [expand_arr, ← recordedList_expansion ih, recorded]
    rfl
  | plain stack e hr ih =>
    rw [expand_plain hr, ← recordedEntries_expansion ih, recorded]
    simp only [hr]
    rfl
  | cut stack e ref name hr hc ih =>
    rw [expand_cut hr hc, ← recordedEntries_expansion ih, recorded]
    simp only [hr]
    split
    · rfl
    · rename_i hs
      split
      · rfl
      · rename_i target hd
        rw [hd] at hc
        exact absurd (List.contains_iff_mem.mpr (hc.resolve_right nofun)) hs
  | followed stack e ref name target hr hs hd ih iht =>
    rw [expand_followed hr hs hd, ← recordedEntries_expansion ih, ← iht, recorded]
    simp only [hr]
    split
    · rename_i h
      exact absurd (List.contains_iff_mem.mp h) hs
    · split
      · rename_i hn
        rw [hd] at hn
        cases hn
      · rename_i target' hd'
        rw [hd] at hd'
        cases hd'
        rfl

/-! ## The visits of each kind of value -/

section Calls
variable {stack : List String} {e : List (String × Json)} {ref name : String}

theorem recorded_scalar {j : Json} (ha : ∀ items, j ≠ .arr items) (ho : ∀ e, j ≠ .obj e) :
    recorded definitions stack j = .ending stack j none [] (expand definitions stack j) := by
  rw [expand_scalar _ _ ha ho, recorded]
  · exact ho
  · exact ha

theorem recorded_arr (items : List Json) : recorded definitions stack (.arr items) =
    .ending stack (.arr items) none
      (items.flatMap fun x => (recorded definitions stack x).visits)
      (expand definitions stack (.arr items)) := by
  have h : (recorded definitions stack (.arr items)).expansion =
      expand definitions stack (.arr items) := recorded_expansion stack _
  rw [recorded] at h ⊢
  rw [recordedList_visits]
  exact congrArg _ h

theorem recorded_plain (hr : referenceOf? e = none) : recorded definitions stack (.obj e) =
    .ending stack (.obj e) none (e.flatMap fun p => (recorded definitions stack p.2).visits)
      (expand definitions stack (.obj e)) := by
  have h : (recorded definitions stack (.obj e)).expansion =
      expand definitions stack (.obj e) := recorded_expansion stack _
  rw [recorded] at h ⊢
  simp only [hr] at h ⊢
  rw [recordedEntries_visits]
  exact congrArg _ h

theorem recorded_cut (hr : referenceOf? e = some (ref, name))
    (hc : name ∈ stack ∨ Entries.get? definitions name = none) :
    recorded definitions stack (.obj e) =
      .ending stack (.obj e) (some ref) (e.flatMap fun p => (recorded definitions stack p.2).visits)
        (expand definitions stack (.obj e)) := by
  have h : (recorded definitions stack (.obj e)).expansion =
      expand definitions stack (.obj e) := recorded_expansion stack _
  rw [recorded] at h ⊢
  simp only [hr, recordedEntries_visits] at h ⊢
  split at h
  · rename_i hs
    rw [dif_pos hs]
    exact congrArg _ h
  · rename_i hs
    rw [dif_neg hs]
    split at h
    · exact congrArg _ h
    · rename_i target hd
      rw [hd] at hc
      exact absurd (List.contains_iff_mem.mpr (hc.resolve_right nofun)) hs

theorem recorded_followed (hr : referenceOf? e = some (ref, name)) (hs : name ∉ stack)
    {target : Json} (hd : Entries.get? definitions name = some target) :
    recorded definitions stack (.obj e) =
      .ending stack (.obj e) none
        (e.flatMap (fun p => (recorded definitions stack p.2).visits)
          ++ (recorded definitions (name :: stack) target).visits)
        (expand definitions stack (.obj e)) := by
  have h : (recorded definitions stack (.obj e)).expansion =
      expand definitions stack (.obj e) := recorded_expansion stack _
  rw [recorded] at h ⊢
  simp only [hr, recordedEntries_visits] at h ⊢
  split at h
  · rename_i hopen
    exact absurd (List.contains_iff_mem.mp hopen) hs
  · rename_i hclosed
    rw [dif_neg hclosed]
    split at h
    · rename_i hn
      rw [hd] at hn
      cases hn
    · rename_i target' hd'
      rw [hd] at hd'
      cases hd'
      exact congrArg _ h

end Calls

/-! ## What each visit reports -/

/-- The mishaps of an expansion are the references that its visits cut, one for each of these visits,
in the order in which they end. -/
theorem mishaps_eq_cuts (hd : ∀ d ∈ definitions, d.2.isObject = true) (stack : List String)
    (j : Json) : (expand definitions stack j).mishaps =
      ((recorded definitions stack j).visits.filterMap Visit.cut).map .cut := by
  induction stack, j using expand_induction definitions with
  | scalar stack j ha ho =>
    rw [recorded_scalar ha ho, expand_scalar _ _ ha ho]
    rfl
  | arr stack items ih =>
    rw [recorded_arr, expand_arr, mishaps_expandList, List.flatMap_congr ih]
    simp [Recorded.ending, List.filterMap_flatMap, List.map_flatMap]
  | plain stack e hr ih =>
    rw [recorded_plain hr, expand_plain hr, mishaps_expandEntries, List.flatMap_congr ih]
    simp [Recorded.ending, List.filterMap_flatMap, List.map_flatMap]
  | cut stack e ref name hr hc ih =>
    rw [recorded_cut hr hc, expand_cut hr hc, mishaps_expandEntries, List.flatMap_congr ih]
    simp [Recorded.ending, List.filterMap_flatMap, List.map_flatMap]
  | followed stack e ref name target hr hs ht ih iht =>
    rw [recorded_followed hr hs ht, mishaps_followed hd hr hs ht, mishaps_expandEntries,
      List.flatMap_congr ih, iht]
    simp [Recorded.ending, List.filterMap_flatMap, List.map_flatMap]

/-! ## What each visit does -/

/-- Whether definitions can be open one inside the other: no name comes twice, and each has a
definition. -/
structure IsPath (definitions : Entries Json) (stack : List String) : Prop where
  nodup : stack.Nodup
  defined : ∀ name ∈ stack, (Entries.get? definitions name).isSome

theorem IsPath.nil : IsPath definitions [] := ⟨.nil, nofun⟩

theorem IsPath.cons {stack : List String} {name : String} {target : Json}
    (h : IsPath definitions stack) (hs : name ∉ stack)
    (hd : Entries.get? definitions name = some target) : IsPath definitions (name :: stack) :=
  ⟨List.nodup_cons.mpr ⟨hs, h.nodup⟩,
    List.forall_mem_cons.mpr ⟨by rw [hd]; rfl, h.defined⟩⟩

/-- Definitions do not nest deeper than there are some. -/
theorem IsPath.length_le {stack : List String} (h : IsPath definitions stack) :
    stack.length ≤ definitions.length := by
  have hsub : stack ⊆ Entries.keys definitions := fun name hn => by
    by_contra hk
    have hd := h.defined name hn
    rw [Entries.get?_eq_none_iff.mpr hk] at hd
    cases hd
  calc stack.length ≤ (Entries.keys definitions).length := (h.nodup.subperm hsub).length_le
    _ = definitions.length := List.length_map ..

def besideReference (definitions : Entries Json) (stack : List String) (e : Entries Json) : Json :=
  .obj (Entries.without
    (Entries.mapValues (fun j => (expand definitions stack j).value) e) "$ref")

/-- What a visit does: it works within a path of open definitions, it answers with the expansion,
and it cuts a reference exactly if that leads to an open definition or to none.  A reference that is
cut leaves only what stands beside it, any other is replaced by its definition, expanded with its
own name open, under what stands beside it. -/
structure Visit.IsSound (definitions : Entries Json) (c : Visit) : Prop where
  path : IsPath definitions c.stack
  depth : c.stack.length ≤ definitions.length
  answer_eq : c.answer = (expand definitions c.stack c.value).value
  cut_iff : ∀ ref, c.cut = some ref ↔ ∃ e name, c.value = .obj e ∧ Refers e name ∧
    ref = definitionRef name ∧ (name ∈ c.stack ∨ Entries.get? definitions name = none)
  leaves : ∀ e name, c.value = .obj e → Refers e name → c.cut ≠ none →
    c.answer = besideReference definitions c.stack e
  follows : ∀ e name, c.value = .obj e → Refers e name → c.cut = none →
    ∃ target, Entries.get? definitions name = some target ∧ name ∉ c.stack ∧
      c.answer = (expand definitions (name :: c.stack) target).value.override
        (besideReference definitions c.stack e)

section Sound
variable {stack : List String} {e : List (String × Json)} {ref name : String}

theorem Visit.isSound_of_not_refers {j : Json} (h : IsPath definitions stack)
    (hj : ∀ e name, j = .obj e → ¬ Refers e name) :
    Visit.IsSound definitions ⟨stack, j, (expand definitions stack j).value, none⟩ where
  path := h
  depth := h.length_le
  answer_eq := rfl
  cut_iff ref := by
    refine ⟨nofun, ?_⟩
    rintro ⟨e, name, he, hr, -⟩
    exact absurd hr (hj e name he)
  leaves e name he hr := absurd hr (hj e name he)
  follows e name he hr := absurd hr (hj e name he)

theorem Visit.isSound_cut (h : IsPath definitions stack) (hr : Refers e name)
    (hc : name ∈ stack ∨ Entries.get? definitions name = none) :
    Visit.IsSound definitions
      ⟨stack, .obj e, (expand definitions stack (.obj e)).value, some (definitionRef name)⟩ where
  path := h
  depth := h.length_le
  answer_eq := rfl
  cut_iff ref := by
    constructor
    · intro href
      exact ⟨e, name, rfl, hr, (Option.some.inj href).symm, hc⟩
    · rintro ⟨e', name', he, hr', rfl, -⟩
      cases he
      rw [hr.unique hr']
  leaves e' name' he hr' _ := by
    cases he
    rw [expand_cut (referenceOf?_eq_some_iff.mpr ⟨hr, rfl⟩) hc, value_expandEntries]
    rfl
  follows e' name' he hr' hcut := by cases hcut

theorem Visit.isSound_followed (h : IsPath definitions stack) (hr : Refers e name)
    (hs : name ∉ stack) {target : Json} (hd : Entries.get? definitions name = some target) :
    Visit.IsSound definitions
      ⟨stack, .obj e, (expand definitions stack (.obj e)).value, none⟩ where
  path := h
  depth := h.length_le
  answer_eq := rfl
  cut_iff ref := by
    refine ⟨nofun, ?_⟩
    rintro ⟨e', name', he, hr', -, hc⟩
    cases he
    rw [hr'.unique hr, hd] at hc
    exact absurd (hc.resolve_right nofun) hs
  leaves e' name' he hr' hcut := absurd rfl hcut
  follows e' name' he hr' _ := by
    cases he
    rw [hr'.unique hr]
    refine ⟨target, hd, hs, ?_⟩
    rw [expand_followed (referenceOf?_eq_some_iff.mpr ⟨hr, rfl⟩) hs hd, value_expandEntries]
    rfl

theorem isSound_of_mem_visits (stack : List String) (j : Json) (h : IsPath definitions stack) :
    ∀ c ∈ (recorded definitions stack j).visits, c.IsSound definitions := by
  induction stack, j using expand_induction definitions with
  | scalar stack j ha ho =>
    rw [recorded_scalar ha ho]
    exact List.forall_mem_singleton.mpr
      (Visit.isSound_of_not_refers h fun e _ he _ => ho e he)
  | arr stack items ih =>
    rw [recorded_arr]
    refine List.forall_mem_append.mpr ⟨fun c hc => ?_, List.forall_mem_singleton.mpr
      (Visit.isSound_of_not_refers h nofun)⟩
    obtain ⟨x, hx, hc⟩ := List.mem_flatMap.mp hc
    exact ih x hx h c hc
  | plain stack e hr ih =>
    rw [recorded_plain hr]
    refine List.forall_mem_append.mpr ⟨fun c hc => ?_, List.forall_mem_singleton.mpr
      (Visit.isSound_of_not_refers h fun e' name he => ?_)⟩
    · obtain ⟨p, hp, hc⟩ := List.mem_flatMap.mp hc
      exact ih p hp h c hc
    · cases he
      exact referenceOf?_eq_none_iff.mp hr name
  | cut stack e ref name hr hc ih =>
    obtain ⟨hrefers, rfl⟩ := referenceOf?_eq_some_iff.mp hr
    rw [recorded_cut hr hc]
    refine List.forall_mem_append.mpr ⟨fun c hc => ?_, List.forall_mem_singleton.mpr
      (Visit.isSound_cut h hrefers hc)⟩
    obtain ⟨p, hp, hc⟩ := List.mem_flatMap.mp hc
    exact ih p hp h c hc
  | followed stack e ref name target hr hs hd ih iht =>
    rw [recorded_followed hr hs hd]
    refine List.forall_mem_append.mpr ⟨List.forall_mem_append.mpr ⟨fun c hc => ?_,
      iht (h.cons hs hd)⟩, List.forall_mem_singleton.mpr
      (Visit.isSound_followed h (referenceOf?_eq_some_iff.mp hr).1 hs hd)⟩
    obtain ⟨p, hp, hc⟩ := List.mem_flatMap.mp hc
    exact ih p hp h c hc

end Sound

/-! ## Whole schemas -/

/-- Inlining ends, with what the recorded expansion answers: it never fails, each of its visits is
sound, and what it reports are the references that visits cut, once for each. -/
theorem inlined_opens_once {schema definitions : Entries Json} (h : Brings schema definitions) :
    (recorded definitions [] (.obj (Entries.without schema "$defs"))).expansion =
      expand definitions [] (.obj (Entries.without schema "$defs")) ∧
    (∃ e, (inlined schema).outcome = .ok (.obj e) ∧ Json.obj e =
      (recorded definitions [] (.obj (Entries.without schema "$defs"))).expansion.value) ∧
    (inlined schema).events =
      ((recorded definitions [] (.obj (Entries.without schema "$defs"))).visits.filterMap
        Visit.cut).map .referenceCut ∧
    ∀ c ∈ (recorded definitions [] (.obj (Entries.without schema "$defs"))).visits,
      c.IsSound definitions := by
  have hobj : (expand definitions [] (.obj (Entries.without schema "$defs"))).value.isObject =
      true := isObject_expand rfl
  have hcuts : cuts (expand definitions [] (.obj (Entries.without schema "$defs"))).mishaps =
      (recorded definitions [] (.obj (Entries.without schema "$defs"))).visits.filterMap
        Visit.cut := by
    rw [mishaps_eq_cuts h.areObjects, cuts, List.filterMap_map]
    exact List.filterMap_some
  rw [recorded_expansion, inlined_of_brings h]
  refine ⟨rfl, ?_, by rw [hcuts], isSound_of_mem_visits [] _ .nil⟩
  cases hv : (expand definitions [] (.obj (Entries.without schema "$defs"))).value with
  | obj e => exact ⟨e, rfl, rfl⟩
  | null | bool | int | decimal | unbounded | str | arr =>
    rw [hv] at hobj
    cases hobj

/-- Two definitions that lead to each other, one of them also to a name without definition. -/
def mutualDefinitions : Entries Json := [
  ("A", .obj [("items", .obj [("$ref", .str "#/$defs/B"), ("title", .str "inner")])]),
  ("B", .obj [("not", .obj [("$ref", .str "#/$defs/A"), ("title", .str "again")]),
    ("if", .obj [("$ref", .str "#/$defs/C")])])]

def mutualSchema : Entries Json :=
  [("$ref", .str "#/$defs/A"), ("$defs", .obj mutualDefinitions)]

theorem inlined_opens_once_mutual : Brings mutualSchema mutualDefinitions ∧
    (∃ e, (inlined mutualSchema).outcome = .ok (.obj e) ∧ e = [("items", .obj [
      ("not", .obj [("title", .str "again")]), ("if", .obj []), ("title", .str "inner")])]) ∧
    ((recorded mutualDefinitions [] (.obj (Entries.without mutualSchema "$defs"))).visits.filterMap
      Visit.cut) = ["#/$defs/A", "#/$defs/C"] ∧
    ∀ c ∈ (recorded mutualDefinitions [] (.obj (Entries.without mutualSchema "$defs"))).visits,
      c.IsSound mutualDefinitions := by
  have hb : Brings mutualSchema mutualDefinitions :=
    ⟨.inr rfl, by simp [mutualDefinitions, Json.isObject]⟩
  obtain ⟨-, ⟨e, he, -⟩, -, hvisits⟩ := inlined_opens_once hb
  refine ⟨hb, ⟨e, he, ?_⟩, by cbv, hvisits⟩
  have hvalue : (inlined mutualSchema).outcome = .ok (.obj [("items", .obj [
      ("not", .obj [("title", .str "again")]), ("if", .obj []), ("title", .str "inner")])]) := by
    cbv
  rw [hvalue] at he
  exact (Json.obj.inj (Except.ok.inj he)).symm

end Procedoc
