import Mathlib.Logic.Relation
import Procedoc.Proofs.Inlining.Reference

/-! # Inlining is unfolding

`Unfolds definitions j v` says, without a stack, that `v` is `j` with each reference replaced by an
unfolding of its definition, overridden by the unfoldings of what stands beside the reference.
`inlined_iff_unfolds` says that a schema is inlined without a cut exactly if it unfolds, and to the
same value.

A derivation of `Unfolds` is finite, so that no definition it opens can lead back to itself: this is
`Unfolds.opens`, and it is why the expansion meets no open definition on the way.
-/

namespace Procedoc
set_option autoImplicit false

/-! ## Unfolding -/

mutual
/-- What a value becomes when every reference in it is followed. -/
inductive Unfolds (definitions : Entries Json) : Json → Json → Prop where
  | scalar {j : Json} (ha : ∀ items, j ≠ .arr items) (ho : ∀ e, j ≠ .obj e) :
      Unfolds definitions j j
  | arr {items values : List Json} (h : UnfoldsList definitions items values) :
      Unfolds definitions (.arr items) (.arr values)
  | obj {e values : List (String × Json)} (hr : ∀ name, ¬ Refers e name)
      (h : UnfoldsEntries definitions e values) : Unfolds definitions (.obj e) (.obj values)
  /-- A reference is replaced; the text that makes it one does not stand beside it. -/
  | reference {e values : List (String × Json)} {name : String} {target v : Json}
      (hr : Refers e name) (ht : Entries.get? definitions name = some target)
      (h : UnfoldsEntries definitions e values) (hv : Unfolds definitions target v) :
      Unfolds definitions (.obj e) (v.override (.obj (Entries.without values "$ref")))

inductive UnfoldsList (definitions : Entries Json) : List Json → List Json → Prop where
  | nil : UnfoldsList definitions [] []
  | cons {j v : Json} {rest values : List Json} (h : Unfolds definitions j v)
      (hs : UnfoldsList definitions rest values) :
      UnfoldsList definitions (j :: rest) (v :: values)

inductive UnfoldsEntries (definitions : Entries Json) :
    List (String × Json) → List (String × Json) → Prop where
  | nil : UnfoldsEntries definitions [] []
  | cons {key : String} {j v : Json} {rest values : List (String × Json)}
      (h : Unfolds definitions j v) (hs : UnfoldsEntries definitions rest values) :
      UnfoldsEntries definitions ((key, j) :: rest) ((key, v) :: values)
end

/-- One definition mentions another. -/
def Leads (definitions : Entries Json) (name next : String) : Prop :=
  ∃ target, Entries.get? definitions name = some target ∧ Mentions target next

/-- A name is mentioned in a value, or in definitions that the value leads to. -/
def Reaches (definitions : Entries Json) (j : Json) (name : String) : Prop :=
  ∃ first, Mentions j first ∧ Relation.ReflTransGen (Leads definitions) first name

/-- All that a value leads to is defined, and nothing leads back to itself. -/
def Settled (definitions : Entries Json) (j : Json) : Prop :=
  ∀ name, Reaches definitions j name →
    (Entries.get? definitions name).isSome ∧ ¬ Relation.TransGen (Leads definitions) name name

variable {definitions : Entries Json}

theorem UnfoldsList.of_map {items : List Json} {f : Json → Json}
    (h : ∀ x ∈ items, Unfolds definitions x (f x)) :
    UnfoldsList definitions items (items.map f) := by
  induction items with
  | nil => exact .nil
  | cons j rest ih =>
    exact .cons (h j (List.mem_cons_self ..)) (ih fun x hx => h x (List.mem_cons_of_mem _ hx))

theorem UnfoldsEntries.of_mapValues {e : List (String × Json)} {f : Json → Json}
    (h : ∀ p ∈ e, Unfolds definitions p.2 (f p.2)) :
    UnfoldsEntries definitions e (Entries.mapValues f e) := by
  induction e with
  | nil => exact .nil
  | cons p rest ih =>
    exact .cons (h p (List.mem_cons_self ..)) (ih fun q hq => h q (List.mem_cons_of_mem _ hq))

/-! ## What a value leads to -/

section Reach
variable {j : Json} {name next : String}

theorem Reaches.of_mentions (h : Mentions j name) : Reaches definitions j name := ⟨name, h, .refl⟩

theorem Reaches.arr {items : List Json} {x : Json} (hx : x ∈ items)
    (h : Reaches definitions x name) : Reaches definitions (.arr items) name := by
  obtain ⟨first, hm, hl⟩ := h
  exact ⟨first, mentions_arr.mpr ⟨x, hx, hm⟩, hl⟩

theorem Reaches.obj {e : Entries Json} {p : String × Json} (hp : p ∈ e)
    (h : Reaches definitions p.2 name) : Reaches definitions (.obj e) name := by
  obtain ⟨first, hm, hl⟩ := h
  exact ⟨first, mentions_obj.mpr (.inr ⟨p, hp, hm⟩), hl⟩

theorem Reaches.refers {e : Entries Json} (hr : Refers e name) :
    Reaches definitions (.obj e) name := .of_mentions (mentions_obj.mpr (.inl hr))

theorem Reaches.target {e : Entries Json} {target : Json} (hr : Refers e name)
    (ht : Entries.get? definitions name = some target) (h : Reaches definitions target next) :
    Reaches definitions (.obj e) next := by
  obtain ⟨first, hm, hl⟩ := h
  exact ⟨name, mentions_obj.mpr (.inl hr), .head ⟨target, ht, hm⟩ hl⟩

theorem Reaches.cycle {target : Json} (ht : Entries.get? definitions name = some target)
    (h : Reaches definitions target name) : Relation.TransGen (Leads definitions) name name := by
  obtain ⟨first, hm, hl⟩ := h
  exact .head' ⟨target, ht, hm⟩ hl

end Reach

/-! ## Expansion without a cut is an unfolding -/

theorem unfolds_expand (stack : List String) (j : Json)
    (h : (expand definitions stack j).mishaps = []) :
    Unfolds definitions j (expand definitions stack j).value := by
  induction stack, j using expand_induction definitions with
  | scalar stack j ha ho =>
    rw [expand_scalar _ _ ha ho]
    exact .scalar ha ho
  | arr stack items ih =>
    simp only [expand_arr, mishaps_expandList, List.flatMap_eq_nil_iff] at h
    rw [expand_arr, value_expandList]
    exact .arr (.of_map fun x hx => ih x hx (h x hx))
  | plain stack e hr ih =>
    simp only [expand_plain hr, mishaps_expandEntries, List.flatMap_eq_nil_iff] at h
    rw [expand_plain hr, value_expandEntries]
    exact .obj (referenceOf?_eq_none_iff.mp hr) (.of_mapValues fun p hp => ih p hp (h p hp))
  | cut stack e ref name hr hc =>
    rw [expand_cut hr hc] at h
    simp at h
  | followed stack e ref name target hr hs hd ih iht =>
    simp only [expand_followed hr hs hd, List.append_eq_nil_iff, mishaps_expandEntries,
      List.flatMap_eq_nil_iff] at h
    rw [expand_followed hr hs hd, value_expandEntries]
    exact .reference (referenceOf?_eq_some_iff.mp hr).1 hd
      (.of_mapValues fun p hp => ih p hp (h.1.1 p hp)) (iht h.1.2)

/-! ## An unfolding is finite -/

/-- A name whose definition unfolds, and from which no way leads on for ever. -/
structure Opens (definitions : Entries Json) (name : String) : Prop where
  unfolds : ∃ target v, Entries.get? definitions name = some target ∧
    Unfolds definitions target v
  ends : Acc (fun next name => Leads definitions name next) name

mutual
theorem Unfolds.opens {j v : Json} (h : Unfolds definitions j v) {name : String}
    (hm : Mentions j name) : Opens definitions name := by
  match h with
  | .scalar ha ho =>
    obtain ⟨e, hp, -⟩ := hm
    cases hp with
    | self => exact absurd rfl (ho e)
    | item => exact absurd rfl (ha _)
    | entry => exact absurd rfl (ho _)
  | .arr h => exact h.opens (mentions_arr.mp hm)
  | .obj hr h =>
    rcases mentions_obj.mp hm with hn | hm
    · exact absurd hn (hr name)
    · exact h.opens hm
  | .reference hr ht h hv =>
    rcases mentions_obj.mp hm with hn | hm
    · rw [← hr.unique hn]
      refine ⟨⟨_, _, ht, hv⟩, .intro _ fun next hl => ?_⟩
      obtain ⟨target', ht', hm⟩ := hl
      rw [ht] at ht'
      cases ht'
      exact (hv.opens hm).ends
    · exact h.opens hm
termination_by structural h

theorem UnfoldsList.opens {items values : List Json} (h : UnfoldsList definitions items values)
    {name : String} (hm : ∃ x ∈ items, Mentions x name) : Opens definitions name := by
  match h with
  | .nil =>
    obtain ⟨x, hx, -⟩ := hm
    cases hx
  | .cons h hs =>
    obtain ⟨x, hx, hm⟩ := hm
    rcases List.mem_cons.mp hx with hx | hx
    · exact h.opens (hx ▸ hm)
    · exact hs.opens ⟨x, hx, hm⟩
termination_by structural h

theorem UnfoldsEntries.opens {e values : List (String × Json)}
    (h : UnfoldsEntries definitions e values) {name : String}
    (hm : ∃ p ∈ e, Mentions p.2 name) : Opens definitions name := by
  match h with
  | .nil =>
    obtain ⟨p, hp, -⟩ := hm
    cases hp
  | .cons h hs =>
    obtain ⟨p, hp, hm⟩ := hm
    rcases List.mem_cons.mp hp with hp | hp
    · rw [hp] at hm
      exact h.opens hm
    · exact hs.opens ⟨p, hp, hm⟩
termination_by structural h
end

theorem Opens.not_cyclic {name : String} (h : Opens definitions name) :
    ¬ Relation.TransGen (Leads definitions) name name := by
  have hends := h.ends
  clear h
  induction hends with
  | intro name _ ih =>
    intro hc
    obtain ⟨next, hl, hr⟩ := Relation.TransGen.head'_iff.mp hc
    exact ih next hl (.tail' hr hl)

/-- All that is reached from a value that unfolds opens. -/
theorem Unfolds.opens_of_reaches {j v : Json} (h : Unfolds definitions j v) {name : String}
    (hr : Reaches definitions j name) : Opens definitions name := by
  obtain ⟨first, hm, hl⟩ := hr
  induction hl with
  | refl => exact h.opens hm
  | tail _ hl ih =>
    obtain ⟨target, v', ht, hv⟩ := ih.unfolds
    obtain ⟨target', ht', hm'⟩ := hl
    rw [ht] at ht'
    cases ht'
    exact hv.opens hm'

theorem Unfolds.settled {j v : Json} (h : Unfolds definitions j v) : Settled definitions j := by
  intro name hr
  have ho := h.opens_of_reaches hr
  obtain ⟨target, _, ht, _⟩ := ho.unfolds
  exact ⟨by rw [ht]; rfl, ho.not_cyclic⟩

/-! ## Expansion of what is settled -/

/-- The parts of a settled value are settled, and so is what its references lead to. -/
theorem Settled.mono {j x : Json} (h : Settled definitions j)
    (hx : ∀ name, Reaches definitions x name → Reaches definitions j name) :
    Settled definitions x := fun name hr => h name (hx name hr)

/-- The stack carries the invariant: no open definition is reached from the value at hand, so that
no reference is cut. -/
theorem mishaps_of_settled (hd : ∀ d ∈ definitions, d.2.isObject = true) (stack : List String)
    (j : Json) (h : Settled definitions j)
    (hs : ∀ name ∈ stack, ¬ Reaches definitions j name) :
    (expand definitions stack j).mishaps = [] := by
  induction stack, j using expand_induction definitions with
  | scalar stack j ha ho => rw [expand_scalar _ _ ha ho]
  | arr stack items ih =>
    rw [expand_arr, mishaps_expandList, List.flatMap_eq_nil_iff]
    intro x hx
    exact ih x hx (h.mono fun _ => .arr hx) fun name hn hr => hs name hn (.arr hx hr)
  | plain stack e hr ih =>
    rw [expand_plain hr, mishaps_expandEntries, List.flatMap_eq_nil_iff]
    intro p hp
    exact ih p hp (h.mono fun _ => .obj hp) fun name hn hr => hs name hn (.obj hp hr)
  | cut stack e ref name hr hc =>
    have hreach : Reaches definitions (.obj e) name := .refers (referenceOf?_eq_some_iff.mp hr).1
    rcases hc with hopen | hnone
    · exact absurd hreach (hs name hopen)
    · have := (h name hreach).1
      rw [hnone] at this
      cases this
  | followed stack e ref name target hr hn hg ih iht =>
    have hrefers := (referenceOf?_eq_some_iff.mp hr).1
    rw [mishaps_followed hd hr hn hg, mishaps_expandEntries, List.append_eq_nil_iff,
      List.flatMap_eq_nil_iff]
    constructor
    · intro p hp
      exact ih p hp (h.mono fun _ => .obj hp) fun name hn hr => hs name hn (.obj hp hr)
    · refine iht (h.mono fun _ => .target hrefers hg) fun other ho hreach => ?_
      rcases List.mem_cons.mp ho with rfl | ho
      · exact (h other (.refers hrefers)).2 (hreach.cycle hg)
      · exact hs other ho (.target hrefers hg hreach)

/-! ## Unfoldings are unique -/

mutual
theorem Unfolds.unique {j v w : Json} (h : Unfolds definitions j v)
    (h' : Unfolds definitions j w) : v = w := by
  match h with
  | .scalar ha ho =>
    cases h' with
    | scalar => rfl
    | arr => exact absurd rfl (ha _)
    | obj => exact absurd rfl (ho _)
    | reference => exact absurd rfl (ho _)
  | .arr h =>
    cases h' with
    | scalar ha => exact absurd rfl (ha _)
    | arr h' => rw [h.unique h']
  | .obj hr h =>
    cases h' with
    | scalar _ ho => exact absurd rfl (ho _)
    | obj _ h' => rw [h.unique h']
    | reference hr' => exact absurd hr' (hr _)
  | .reference hr ht h hv =>
    cases h' with
    | scalar _ ho => exact absurd rfl (ho _)
    | obj hr' => exact absurd hr (hr' _)
    | reference hr' ht' h' hv' =>
      rw [← hr.unique hr', ht, Option.some.injEq] at ht'
      rw [h.unique h', hv.unique (ht' ▸ hv')]
termination_by structural h

theorem UnfoldsList.unique {items values others : List Json}
    (h : UnfoldsList definitions items values) (h' : UnfoldsList definitions items others) :
    values = others := by
  match h with
  | .nil =>
    cases h'
    rfl
  | .cons h hs =>
    cases h' with
    | cons h' hs' => rw [h.unique h', hs.unique hs']
termination_by structural h

theorem UnfoldsEntries.unique {e values others : List (String × Json)}
    (h : UnfoldsEntries definitions e values) (h' : UnfoldsEntries definitions e others) :
    values = others := by
  match h with
  | .nil =>
    cases h'
    rfl
  | .cons h hs =>
    cases h' with
    | cons h' hs' => rw [h.unique h', hs.unique hs']
termination_by structural h
end

/-- What is settled has one expansion, whatever is open around it. -/
theorem expand_of_settled (hd : ∀ d ∈ definitions, d.2.isObject = true) {stack : List String}
    {j : Json} (h : Settled definitions j)
    (hs : ∀ name ∈ stack, ¬ Reaches definitions j name) :
    expand definitions stack j = expand definitions [] j := by
  have hm := mishaps_of_settled hd stack j h hs
  have hm' := mishaps_of_settled hd [] j h (by simp)
  have hv := (unfolds_expand stack j hm).unique (unfolds_expand [] j hm')
  cases hx : expand definitions stack j
  cases hy : expand definitions [] j
  simp_all

/-! ## Whole schemas -/

/-- A schema is inlined without a cut exactly if it unfolds, and to the same value.  This is so
exactly if all it leads to is defined and nothing of this leads back to itself, and then it does not
matter what is open around a value. -/
theorem inlined_iff_unfolds {schema definitions : Entries Json} (h : Brings schema definitions) :
    (∀ r, ((inlined schema).outcome = .ok r ∧
        ∀ ref, Event.referenceCut ref ∉ (inlined schema).events) ↔
      Unfolds definitions (.obj (Entries.without schema "$defs")) r) ∧
    (Settled definitions (.obj (Entries.without schema "$defs")) ↔
      ∀ ref, Event.referenceCut ref ∉ (inlined schema).events) ∧
    (∀ stack j, Settled definitions j → (∀ name ∈ stack, ¬ Reaches definitions j name) →
      expand definitions stack j = expand definitions [] j) := by
  have hcuts := cuts_eq_nil_iff
    (mishaps_expand h.areObjects [] (.obj (Entries.without schema "$defs")))
  have hquiet : (∀ ref, Event.referenceCut ref ∉ (inlined schema).events) ↔
      (expand definitions [] (.obj (Entries.without schema "$defs"))).mishaps = [] := by
    rw [inlined_of_brings h, ← hcuts]
    simp [List.eq_nil_iff_forall_not_mem]
  have hsettled {v : Json} (hv : Unfolds definitions (.obj (Entries.without schema "$defs")) v) :=
    mishaps_of_settled h.areObjects [] _ hv.settled (by simp)
  refine ⟨fun r => ⟨fun ⟨ho, hq⟩ => ?_, fun hv => ⟨?_, hquiet.mpr (hsettled hv)⟩⟩,
    ⟨fun hs => ?_, fun hq => ?_⟩, fun stack j hj hs => expand_of_settled h.areObjects hj hs⟩
  · have hv := unfolds_expand [] _ (hquiet.mp hq)
    rw [inlined_of_brings h] at ho
    cases ho
    exact hv
  · have hv' := unfolds_expand [] _ (hsettled hv)
    rw [inlined_of_brings h, hv.unique hv']
  · exact hquiet.mpr (mishaps_of_settled h.areObjects [] _ hs (by simp))
  · exact (unfolds_expand [] _ (hquiet.mp hq)).settled

/-- A definition that two ways lead to, and one on a cycle that nothing leads to. -/
def diamondDefinitions : Entries Json := [
  ("A", .obj [("$ref", .str "#/$defs/B"), ("title", .str "A")]),
  ("B", .obj [("title", .str "B"), ("type", .str "string")]),
  ("C", .obj [("$ref", .str "#/$defs/C")])]

theorem inlined_iff_unfolds_diamond :
    Brings [("items", .obj [("$ref", .str "#/$defs/A"), ("description", .str "one")]),
        ("not", .obj [("$ref", .str "#/$defs/B")]), ("$defs", .obj diamondDefinitions)]
      diamondDefinitions ∧
    (inlined [("items", .obj [("$ref", .str "#/$defs/A"), ("description", .str "one")]),
      ("not", .obj [("$ref", .str "#/$defs/B")]), ("$defs", .obj diamondDefinitions)]).outcome =
      .ok (.obj [
        ("items", .obj [("title", .str "A"), ("type", .str "string"), ("description", .str "one")]),
        ("not", .obj [("title", .str "B"), ("type", .str "string")])]) := by
  have hb : Brings [("items", .obj [("$ref", .str "#/$defs/A"), ("description", .str "one")]),
        ("not", .obj [("$ref", .str "#/$defs/B")]), ("$defs", .obj diamondDefinitions)]
      diamondDefinitions := ⟨.inr rfl, by simp [diamondDefinitions, Json.isObject]⟩
  have hstr (s : String) : Unfolds diamondDefinitions (.str s) (.str s) := .scalar nofun nofun
  have hB : Unfolds diamondDefinitions (.obj [("title", .str "B"), ("type", .str "string")])
      (.obj [("title", .str "B"), ("type", .str "string")]) :=
    .obj (by simp [Refers, Entries.get?]) (.cons (hstr _) (.cons (hstr _) .nil))
  have hrefers (name : String) (rest : Entries Json) :
      Refers (("$ref", .str (definitionRef name)) :: rest) name := rfl
  have hA : Unfolds diamondDefinitions (.obj [("$ref", .str "#/$defs/B"), ("title", .str "A")])
      (.obj [("title", .str "A"), ("type", .str "string")]) := by
    have h := Unfolds.reference (hrefers "B" [("title", .str "A")]) rfl
      (.cons (hstr _) (.cons (hstr _) .nil)) hB
    exact h
  refine ⟨hb, (((inlined_iff_unfolds hb).1 _).mpr ?_).1⟩
  refine .obj (by simp [Refers, Entries.get?, Entries.without]) (.cons ?_ (.cons ?_ .nil))
  · have h := Unfolds.reference (hrefers "A" [("description", .str "one")]) rfl
      (.cons (hstr _) (.cons (hstr _) .nil)) hA
    exact h
  · have h := Unfolds.reference (hrefers "B" []) rfl (.cons (hstr _) .nil) hB
    exact h

end Procedoc
