import Procedoc.Partition

/-! # What a template takes out of an object

Facts about `Schema.partition`, said of the keys and of the fields under them: the part in the path
has the placeholders of the template as its keys, each once and in the order in which it comes
first; what is left has all other keys, in their own order.
-/

namespace Procedoc
set_option autoImplicit false

/-! ## Picking fields -/

theorem Template.placeholdersIn_eq_ok_iff {fields names : List String} {template : String} :
    placeholdersIn fields template = .ok names ↔
      names = placeholders template ∧ ∀ n ∈ placeholders template, n ∈ fields := by
  unfold placeholdersIn
  split
  · rename_i name hfind
    have hmem := List.mem_of_find?_eq_some hfind
    have hnot : name ∉ fields := by simpa using List.find?_some hfind
    constructor
    · nofun
    · intro h
      exact absurd (h.2 name hmem) hnot
  · rename_i hfind
    have hall : ∀ n ∈ placeholders template, n ∈ fields := by
      simpa using List.find?_eq_none.mp hfind
    constructor
    · intro h
      cases h
      exact ⟨rfl, hall⟩
    · intro h
      rw [h.1]

theorem get?_of_mem_pickFields {fields : Entries Schema} {names : List String}
    {p : String × Schema} (h : p ∈ pickFields fields names) :
    Entries.get? fields p.1 = some p.2 := by
  rcases Entries.mem_of_mem_override h with h | h
  · cases h
  · obtain ⟨n, -, hn⟩ := List.mem_filterMap.mp h
    obtain ⟨s, hs, rfl⟩ := Option.map_eq_some_iff.mp hn
    exact hs

theorem keys_pickFields {fields : Entries Schema} {names : List String}
    (h : ∀ n ∈ names, n ∈ Entries.keys fields) :
    Entries.keys (pickFields fields names) = names.eraseDups := by
  have hpairs : Entries.keys (names.filterMap fun n =>
      (Entries.get? fields n).map fun s => (n, s)) = names := by
    induction names with
    | nil => rfl
    | cons n rest ih =>
      cases hg : Entries.get? fields n with
      | none => exact absurd (h n (List.mem_cons_self ..)) (Entries.get?_eq_none_iff.mp hg)
      | some s =>
        have hrest := ih fun m hm => h m (List.mem_cons_of_mem _ hm)
        rw [List.filterMap_cons_some (b := (n, s)) (by rw [hg]; rfl)]
        exact congrArg (n :: ·) hrest
  rw [pickFields, Entries.keys_ofList, hpairs]

theorem get?_pickFields {fields : Entries Schema} {names : List String}
    (h : ∀ n ∈ names, n ∈ Entries.keys fields) (key : String) :
    Entries.get? (pickFields fields names) key =
      if names.contains key then Entries.get? fields key else none := by
  have hkeys : key ∈ Entries.keys (pickFields fields names) ↔ key ∈ names := by
    rw [keys_pickFields h, List.mem_eraseDups]
  cases hg : Entries.get? (pickFields fields names) key with
  | none =>
    have hk : key ∉ names := fun hn => Entries.get?_eq_none_iff.mp hg (hkeys.mpr hn)
    rw [if_neg (by simpa using hk)]
  | some s =>
    have hmem := Entries.mem_of_get? hg
    have hk : key ∈ names := hkeys.mp (List.mem_map_of_mem hmem)
    rw [if_pos (by simpa using hk), get?_of_mem_pickFields hmem]

/-! ## Leaving fields out -/

theorem Schema.without_object (head : Head) (fields : List (String × Schema))
    (o : Option (Field TypeExpr)) (names : List String) :
    (object head fields o).without names =
      .ok (object (if fields.any fun f => names.contains f.1 then { head with model := none }
        else head) (Entries.withoutAll fields names) o) := by
  simp only [without]
  by_cases hany : (fields.any fun f => names.contains f.1) = true
  · rw [if_pos hany, if_pos hany]
  · have hall : Entries.withoutAll fields names = fields := by
      rw [Entries.withoutAll, List.filter_eq_self]
      intro p hp
      cases hc : names.contains p.1 with
      | false => rfl
      | true => exact absurd (List.any_eq_true.mpr ⟨p, hp, hc⟩) hany
    rw [if_neg hany, if_neg hany, hall]

theorem Schema.without_congr (s : Schema) {names others : List String}
    (h : ∀ n, n ∈ names ↔ n ∈ others) : s.without names = s.without others := by
  have hc : (fun f : String × Schema => names.contains f.1) = fun f => others.contains f.1 := by
    funext f
    rw [Bool.eq_iff_iff, List.contains_iff_mem, List.contains_iff_mem]
    exact h f.1
  cases s with
  | object head fields o =>
    simp only [without, Entries.withoutAll]
    rw [hc]
    have hn : (fun f : String × Schema => !names.contains f.1) = fun f => !others.contains f.1 := by
      funext f
      rw [congrFun hc f]
    rw [hn]
  | text | other | wrapped => rfl

/-! ## The split -/

theorem Schema.partition_eq_ok {s : Schema} {template : String} {parts : Partition}
    (h : s.partition template = .ok parts) :
    ∃ head fields o, s = .object head fields o ∧
      (∀ n ∈ Template.placeholders template, n ∈ Entries.keys fields) ∧
      parts.path = .ofFields { name := pathName head.name }
        (pickFields fields (Template.placeholders template)) ∧
      s.without (Template.placeholders template) = .ok parts.rest := by
  cases s with
  | object head fields o =>
    simp only [partition] at h
    cases hn : Template.placeholdersIn (Entries.keys fields) template with
    | error v =>
      rw [hn] at h
      cases h
    | ok names =>
      obtain ⟨rfl, hall⟩ := Template.placeholdersIn_eq_ok_iff.mp hn
      rw [hn] at h
      cases hw : (object head fields o).without (Template.placeholders template) with
      | error v =>
        simp [hw, bind, Except.bind] at h
      | ok rest =>
        simp only [hw, bind, Except.bind, pure, Except.pure, Except.ok.injEq] at h
        subst h
        exact ⟨head, fields, o, rfl, hall, rfl, rfl⟩
  | text | other | wrapped => cases h

theorem Schema.partitioned_eq_ok {s : Schema} {template : String} {parts : Partition} :
    (s.partitioned template).outcome = .ok parts ↔ s.partition template = .ok parts := by
  unfold partitioned
  cases hp : s.partition template with
  | ok p => simp
  | error v => simp [Traced.refuse]

/-! ## An exact split -/

/-- A split of an object along some names: no field is lost, changed or in both parts, and what the
object says besides its fields stays with the part that is left. -/
structure Partition.Splits (parts : Partition) (head : Head) (fields : Entries Schema)
    (origin : Option (Field TypeExpr)) (names : List String) : Prop where
  /-- The named fields, in the order in which they are named first. -/
  path_keys : parts.path.keys = names.eraseDups
  /-- All other fields, in their own order. -/
  rest_keys : parts.rest.keys = (Entries.keys fields).filter fun k => !names.contains k
  disjoint : ∀ k ∈ parts.path.keys, k ∉ parts.rest.keys
  cover : ∀ k, k ∈ Entries.keys fields ↔ k ∈ parts.path.keys ∨ k ∈ parts.rest.keys
  path_field : ∀ k ∈ parts.path.keys,
    Entries.get? parts.path.fields k = Entries.get? fields k
  rest_field : ∀ k ∈ parts.rest.keys,
    Entries.get? parts.rest.fields k = Entries.get? fields k
  /-- The model stays only where no field is named. -/
  rest_eq : parts.rest =
    .object { head with model := if names = [] then head.model else none } parts.rest.fields origin

theorem Schema.partition_object {fields : Entries Schema} {template : String}
    (h : ∀ n ∈ Template.placeholders template, n ∈ Entries.keys fields) (head : Head)
    (o : Option (Field TypeExpr)) : (object head fields o).partition template = .ok
      ⟨.ofFields { name := pathName head.name }
          (pickFields fields (Template.placeholders template)),
        .object { head with
            model := if Template.placeholders template = [] then head.model else none }
          (Entries.withoutAll fields (Template.placeholders template)) o⟩ := by
  have hnames := Template.placeholdersIn_eq_ok_iff.mpr ⟨rfl, h⟩
  -- all names are fields, so that some field goes exactly where some name is given
  have hgone : (fields.any fun f => (Template.placeholders template).contains f.1) =
      !(Template.placeholders template).isEmpty := by
    cases hn : Template.placeholders template with
    | nil => simp
    | cons n rest =>
      have hmem : n ∈ Entries.keys fields := h n (by rw [hn]; exact List.mem_cons_self ..)
      obtain ⟨f, hf, rfl⟩ := List.mem_map.mp hmem
      simpa using ⟨f.1, ⟨f.2, hf⟩, .inl rfl⟩
  simp only [partition, hnames, Schema.without_object, hgone, bind, Except.bind, pure, Except.pure]
  by_cases hn : Template.placeholders template = []
  · simp [hn]
  · simp [hn]

theorem Schema.named_of_partition {head : Head} {fields : Entries Schema}
    {o : Option (Field TypeExpr)} {template : String} {parts : Partition}
    (h : (object head fields o).partition template = .ok parts) :
    ∀ n ∈ Template.placeholders template, n ∈ Entries.keys fields := by
  obtain ⟨_, _, _, hs, hnamed, -, -⟩ := Schema.partition_eq_ok h
  cases hs
  exact hnamed

theorem Partition.splits_of_partition {head : Head} {fields : Entries Schema}
    {o : Option (Field TypeExpr)} {template : String} {parts : Partition}
    (h : (Schema.object head fields o).partition template = .ok parts) :
    parts.Splits head fields o (Template.placeholders template) := by
  have hnamed := Schema.named_of_partition h
  rw [Schema.partition_object hnamed, Except.ok.injEq] at h
  subst h
  have hpath := keys_pickFields hnamed
  have hrest := Entries.keys_withoutAll fields (Template.placeholders template)
  have hp (k : String) : k ∈ Entries.keys (pickFields fields (Template.placeholders template)) ↔
      k ∈ Template.placeholders template := by rw [hpath, List.mem_eraseDups]
  have hr (k : String) : k ∈ Entries.keys (Entries.withoutAll fields
      (Template.placeholders template)) ↔
      k ∈ Entries.keys fields ∧ k ∉ Template.placeholders template := by
    rw [hrest, List.mem_filter, Bool.not_eq_true', List.contains_eq_mem, decide_eq_false_iff_not]
  constructor
  case path_keys => exact hpath
  case rest_keys => exact hrest
  case disjoint => exact fun k hk hk' => ((hr k).mp hk').2 ((hp k).mp hk)
  case cover =>
    intro k
    refine Iff.trans ?_ (or_congr (hp k) (hr k)).symm
    by_cases hn : k ∈ Template.placeholders template
    · simp [hn, hnamed k hn]
    · simp [hn]
  case path_field =>
    intro k hk
    exact (get?_pickFields hnamed k).trans (if_pos (List.contains_iff_mem.mpr ((hp k).mp hk)))
  case rest_field =>
    intro k hk
    have hn : ¬ (Template.placeholders template).contains k := fun hc =>
      ((hr k).mp hk).2 (List.contains_iff_mem.mp hc)
    exact (Entries.get?_withoutAll fields _ k).trans (if_neg hn)
  case rest_eq => rfl

/-- An object is split along a template exactly where all placeholders name fields of it, and then
no field is lost, changed or in both parts. -/
theorem object_partition_exact (head : Head) (fields : Entries Schema)
    (origin : Option (Field TypeExpr)) (template : String) :
    ((∃ parts, (Schema.object head fields origin).partition template = .ok parts) ↔
      ∀ n ∈ Template.placeholders template, n ∈ Entries.keys fields) ∧
    ∀ parts, (Schema.object head fields origin).partition template = .ok parts →
      parts.Splits head fields origin (Template.placeholders template) := by
  refine ⟨⟨?_, fun h => ⟨_, Schema.partition_object h head origin⟩⟩, fun _ =>
    Partition.splits_of_partition⟩
  rintro ⟨parts, h⟩
  exact Schema.named_of_partition h

/-- A template with a repeated placeholder takes it out once; the model does not stay. -/
theorem object_partition_exact_repeated :
    (Schema.object { name := some "N", model := some "N" }
        [("a", .text {} none), ("b", .other {} none)] none).partition "/{b}/{b}" =
      .ok ⟨.ofFields { name := some "NPathParams" } [("b", .other {} none)],
        .object { name := some "N" } [("a", .text {} none)] none⟩ ∧
    (⟨.ofFields { name := some "NPathParams" } [("b", .other {} none)],
        .object { name := some "N" } [("a", .text {} none)] none⟩ : Partition).Splits
      { name := some "N", model := some "N" } [("a", .text {} none), ("b", .other {} none)] none
      ["b", "b"] := by
  have hnames : Template.placeholders "/{b}/{b}" = ["b", "b"] := by decide +kernel
  have hnamed : ∀ n ∈ Template.placeholders "/{b}/{b}", n ∈ Entries.keys
      [("a", Schema.text {} none), ("b", .other {} none)] := by
    rw [hnames]
    decide
  have hparts := Schema.partition_object hnamed { name := some "N", model := some "N" } none
  rw [hnames] at hparts
  exact ⟨hparts, hnames ▸ (object_partition_exact _ _ _ _).2 _ hparts⟩

end Procedoc
