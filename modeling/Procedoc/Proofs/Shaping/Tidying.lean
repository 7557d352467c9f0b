import Mathlib.Algebra.GroupWithZero.Nat
import Procedoc.Proofs.Shaping.Working

/-! # Tidying keeps what a shape stands for

Tidying puts a definition into the place of the only reference to it, however deep that stands, and
drops what nothing refers to.  The layout that comes out is good if the workbench was
(`good_tidy`): no reference in it leads nowhere, since a definition with but one reference stands
inside the definition that was found before it. -/
namespace Procedoc
set_option autoImplicit false

/-! ## What is left to be found -/

section Left
variable {ι κ : Type} [DecidableEq κ] (key : ι → κ) (weight : ι → Nat)

/-- The weight of the items that were not found. -/
def weightLeft (items : List ι) (found : List κ) : Nat :=
  ((items.filter fun p => !found.contains (key p)).map weight).sum

theorem weightLeft_cons (p : ι) (rest : List ι) (found : List κ) :
    weightLeft key weight (p :: rest) found =
      (if key p ∈ found then 0 else weight p) + weightLeft key weight rest found := by
  unfold weightLeft
  by_cases hp : key p ∈ found
  · simp [hp]
  · simp [hp]

theorem weightLeft_append {items : List ι} {found : List κ} {p : ι} (hm : p ∈ items)
    (hn : key p ∉ found) :
    weightLeft key weight items (found ++ [key p]) + weight p ≤ weightLeft key weight items found := by
  have hmem : ∀ k, k ∈ found ++ [key p] ↔ k ∈ found ∨ k = key p := by simp
  have hle : ∀ l : List ι,
      weightLeft key weight l (found ++ [key p]) ≤ weightLeft key weight l found := by
    intro l
    induction l with
    | nil => exact Nat.le_refl _
    | cons q rest ih =>
      rw [weightLeft_cons, weightLeft_cons]
      by_cases hq : key q ∈ found
      · rw [if_pos hq, if_pos ((hmem _).mpr (.inl hq))]
        omega
      · rw [if_neg hq]
        split <;> omega
  induction items with
  | nil => cases hm
  | cons q rest ih =>
    rw [weightLeft_cons, weightLeft_cons]
    rcases List.mem_cons.mp hm with rfl | hm
    · have h := hle rest
      rw [if_neg hn, if_pos ((hmem _).mpr (.inr rfl))]
      omega
    · have h := ih hm
      by_cases hq : key q ∈ found
      · rw [if_pos hq, if_pos ((hmem _).mpr (.inl hq))]
        omega
      · rw [if_neg hq]
        split <;> omega

end Left

/-! ## Gathering -/

variable {Δ : Outlines} {isSaid : Anchor → Bool} {ds : Definitions}

/-- Whether what each definition found mentions is pending, is found not to be single, or is found
later. -/
def Ahead (isSaid : Anchor → Bool) (ds : Definitions) (isPending : Mention → Prop)
    (isLoose : Key → Prop) : List Found → Prop
  | [] => True
  | f :: rest =>
    (∀ d, ds.find? f.key = some d → ∀ m ∈ d.mentions isSaid,
      isPending m ∨ isLoose m.key ∨ m.key ∈ rest.map Found.key) ∧
    Ahead isSaid ds isPending isLoose rest

/-- Whether a key was found, and not to be single. -/
def Loose (found : List Found) (key : Key) : Prop :=
  ∃ g ∈ found, g.key = key ∧ g.isSingle = false

theorem loose_cons_single (key : Key) (found : List Found) :
    Loose (⟨key, true⟩ :: found) = Loose found := by
  funext k
  simp [Loose]

/-- The definitions found, the one of a key no longer single. -/
def loosen (key : Key) (found : List Found) : List Found :=
  found.map fun f => if f.key = key then { f with isSingle := false } else f

theorem map_key_loosen (key : Key) (found : List Found) :
    (loosen key found).map Found.key = found.map Found.key := by
  rw [loosen, List.map_map]
  refine List.map_congr_left fun f _ => ?_
  dsimp only [Function.comp_apply]
  split <;> rfl

theorem loose_loosen {key : Key} {found : List Found} (h : key ∈ found.map Found.key) {k : Key}
    (hk : k = key ∨ Loose found k) : Loose (loosen key found) k := by
  rcases hk with rfl | ⟨g, hg, rfl, hs⟩
  · obtain ⟨f, hf, rfl⟩ := List.mem_map.mp h
    exact ⟨_, List.mem_map_of_mem hf, by simp, by simp⟩
  · refine ⟨_, List.mem_map_of_mem hg, ?_, ?_⟩
    · split <;> rfl
    · split
      · rfl
      · exact hs

theorem ahead_loosen {isPending isPending' : Mention → Prop} {isLoose isLoose' : Key → Prop}
    {found : List Found} (h : Ahead isSaid ds isPending isLoose found) (key : Key)
    (hp : ∀ m, isPending m → isPending' m ∨ isLoose' m.key) (hl : ∀ k, isLoose k → isLoose' k) :
    Ahead isSaid ds isPending' isLoose' (loosen key found) := by
  induction found with
  | nil => trivial
  | cons f rest ih =>
    refine ⟨fun d hd m hm => ?_, ih h.2⟩
    have hk : (if f.key = key then { f with isSingle := false } else f).key = f.key := by
      split <;> rfl
    rw [hk] at hd
    have hkeys := map_key_loosen key rest
    rw [loosen] at hkeys
    rw [hkeys]
    rcases h.1 d hd m hm with hm | hm | hm
    · exact (hp m hm).imp_right .inl
    · exact .inr (.inl (hl _ hm))
    · exact .inr (.inr hm)

theorem ahead_append {isPending isPending' : Mention → Prop} {isLoose isLoose' : Key → Prop}
    {found : List Found} (h : Ahead isSaid ds isPending isLoose found) (g : Found)
    (hp : ∀ m, isPending m → isPending' m ∨ m.key = g.key) (hl : ∀ k, isLoose k → isLoose' k)
    (hg : ∀ d, ds.find? g.key = some d → ∀ m ∈ d.mentions isSaid, isPending' m) :
    Ahead isSaid ds isPending' isLoose' (found ++ [g]) := by
  induction found with
  | nil => exact ⟨fun d hd m hm => .inl (hg d hd m hm), trivial⟩
  | cons f rest ih =>
    refine ⟨fun d hd m hm => ?_, ih h.2⟩
    rw [List.append_eq, List.map_append, List.mem_append]
    rcases h.1 d hd m hm with hm | hm | hm
    · rcases hp m hm with hm | hm
      · exact .inl hm
      · exact .inr (.inr (.inr (by simp [hm])))
    · exact .inr (.inl (hl _ hm))
    · exact .inr (.inr (.inl hm))

/-- What holds while references are followed, the first of which led to `top` alone. -/
structure Gathering (isSaid : Anchor → Bool) (ds : Definitions) (top : Key)
    (pending : List Mention) (found : List Found) : Prop where
  first : ∃ rest, found = ⟨top, true⟩ :: rest ∧ ∀ g ∈ rest, g.key ≠ top
  defined : ∀ f ∈ found, (ds.find? f.key).isSome
  pendingDefined : ∀ m ∈ pending, (ds.find? m.key).isSome
  pendingOther : ∀ m ∈ pending, m.key ≠ top
  ahead : Ahead isSaid ds (· ∈ pending) (Loose found) found

theorem Gathering.loosen {top : Key} {m : Mention} {pending : List Mention} {found : List Found}
    (h : Gathering isSaid ds top (m :: pending) found) (hm : m.key ∈ found.map Found.key) :
    Gathering isSaid ds top pending (loosen m.key found) where
  first := by
    obtain ⟨rest, rfl, hrest⟩ := h.first
    have hne := h.pendingOther m (List.mem_cons_self ..)
    refine ⟨Procedoc.loosen m.key rest, ?_, fun g hg => ?_⟩
    · rw [Procedoc.loosen, List.map_cons, if_neg (Ne.symm hne)]
      rfl
    · obtain ⟨f, hf, rfl⟩ := List.mem_map.mp hg
      split <;> exact hrest f hf
  defined := by
    intro f hf
    obtain ⟨g, hg, rfl⟩ := List.mem_map.mp hf
    have hk : (if g.key = m.key then { g with isSingle := false } else g).key = g.key := by
      split <;> rfl
    rw [hk]
    exact h.defined g hg
  pendingDefined := fun m' hm' => h.pendingDefined m' (List.mem_cons_of_mem _ hm')
  pendingOther := fun m' hm' => h.pendingOther m' (List.mem_cons_of_mem _ hm')
  ahead := by
    refine ahead_loosen h.ahead m.key (fun m' hm' => ?_) fun k hk => loose_loosen hm (.inr hk)
    rcases List.mem_cons.mp hm' with rfl | hm'
    · exact .inr (loose_loosen hm (.inl rfl))
    · exact .inl hm'

theorem Gathering.append {top : Key} {m : Mention} {pending : List Mention} {found : List Found}
    (h : Gathering isSaid ds top (m :: pending) found) {d : Shape}
    (hd : ds.find? m.key = some d)
    (hclosed : ∀ key d, ds.find? key = some d → ∀ k ∈ d.refs, (ds.find? k).isSome)
    (htop : ∀ key d, ds.find? key = some d → top ∉ d.refs) :
    Gathering isSaid ds top (d.mentions isSaid ++ pending) (found ++ [⟨m.key, m.isBare⟩]) where
  first := by
    obtain ⟨rest, rfl, hrest⟩ := h.first
    refine ⟨rest ++ [⟨m.key, m.isBare⟩], rfl, fun g hg => ?_⟩
    rcases List.mem_append.mp hg with hg | hg
    · exact hrest g hg
    · rw [List.mem_singleton.mp hg]
      exact h.pendingOther m (List.mem_cons_self ..)
  defined := by
    intro f hf
    rcases List.mem_append.mp hf with hf | hf
    · exact h.defined f hf
    · rw [List.mem_singleton.mp hf, hd]
      rfl
  pendingDefined := by
    intro m' hm'
    rcases List.mem_append.mp hm' with hm' | hm'
    · refine hclosed m.key d hd _ ?_
      rw [← Shape.keys_mentions isSaid]
      exact List.mem_map_of_mem hm'
    · exact h.pendingDefined m' (List.mem_cons_of_mem _ hm')
  pendingOther := by
    intro m' hm'
    rcases List.mem_append.mp hm' with hm' | hm'
    · intro heq
      refine htop m.key d hd ?_
      rw [← heq, ← Shape.keys_mentions isSaid]
      exact List.mem_map_of_mem hm'
    · exact h.pendingOther m' (List.mem_cons_of_mem _ hm')
  ahead := by
    refine ahead_append h.ahead ⟨m.key, m.isBare⟩ (fun m' hm' => ?_) (fun k hk => ?_) ?_
    · rcases List.mem_cons.mp hm' with rfl | hm'
      · exact .inr rfl
      · exact .inl (List.mem_append_right _ hm')
    · obtain ⟨g, hg, hk⟩ := hk
      exact ⟨g, List.mem_append_left _ hg, hk⟩
    · intro d' hd' m' hm'
      rw [hd] at hd'
      cases hd'
      exact List.mem_append_left _ hm'

theorem gathering_gather {top : Key} {steps : Nat} {pending : List Mention} {found : List Found}
    (h : Gathering isSaid ds top pending found)
    (hclosed : ∀ key d, ds.find? key = some d → ∀ k ∈ d.refs, (ds.find? k).isSome)
    (htop : ∀ key d, ds.find? key = some d → top ∉ d.refs)
    (hsteps : pending.length +
      weightLeft Prod.fst (fun p : Key × Shape => (p.2.mentions isSaid).length) ds
        (found.map Found.key) ≤ steps) :
    Gathering isSaid ds top [] (gather isSaid ds steps pending found) := by
  induction steps generalizing pending found with
  | zero =>
    have hnil : pending = [] := List.length_eq_zero_iff.mp (by omega)
    subst hnil
    exact h
  | succ steps ih =>
    cases pending with
    | nil => exact h
    | cons m pending =>
      rw [List.length_cons] at hsteps
      rw [gather]
      have hany : (found.any fun f => f.key = m.key) = true ↔ m.key ∈ found.map Found.key := by
        simp
      by_cases hm : m.key ∈ found.map Found.key
      · rw [if_pos (hany.mpr hm)]
        refine ih (h.loosen hm) ?_
        have hkeys := map_key_loosen m.key found
        rw [loosen] at hkeys
        rw [hkeys]
        omega
      · rw [if_neg (mt hany.mp hm)]
        obtain ⟨d, hd⟩ := Option.isSome_iff_exists.mp (h.pendingDefined m (List.mem_cons_self ..))
        rw [hd]
        refine ih (h.append hd hclosed htop) ?_
        have hcost := weightLeft_append Prod.fst
          (fun p : Key × Shape => (p.2.mentions isSaid).length) (Definitions.mem_of_find? hd) hm
        dsimp only at hcost
        rw [List.map_append, List.length_append]
        simp only [List.map_cons, List.map_nil]
        omega

/-! ## Filling -/

namespace Shape
variable {f : Key → Option Shape}

/-- A field whose shape has other shapes in the place of some references. -/
def fillField (f : Key → Option Shape) (g : Field Shape) : Field Shape :=
  { g with type := g.type.fill f }

theorem fillFields_eq (f : Key → Option Shape) (fields : List (Field Shape)) :
    fillFields f fields = fields.map (fillField f) := by
  induction fields with
  | nil => rfl
  | cons g rest ih =>
    rw [fillFields, ih, List.map_cons]
    rfl

/-- Whether every shape that is filled in is a definition of its key and looks like its owner. -/
def Fills (Δ : Outlines) (f : Key → Option Shape) : Prop :=
  ∀ key d, f key = some d → d.key? = some key ∧ d.Agrees Δ

mutual
theorem folded_fill (hf : Fills Δ f) : (s : Shape) → s.Agrees Δ → (s.fill f).folded = s.folded
  | reference key, _ => by
    rw [fill]
    cases h : f key with
    | none => rfl
    | some d => exact folded_of_key? (hf key d h).1
  | shared _, h => by
    rw [Agrees] at h
    exact h.elim
  | container _ inner _, h | nullable inner, h | guarded inner, h | chained inner _, h
  | defaulted inner _, h | noted inner _, h => by
    rw [Agrees] at h
    rw [fill, folded, folded, folded_fill hf inner h]
  | tuple items _, h | union items, h => by
    rw [Agrees] at h
    rw [fill, folded, folded, foldedList_fillList hf items h]
  | dict a b _, h | replaced a b, h => by
    rw [Agrees] at h
    rw [fill, folded, folded, folded_fill hf a h.1, folded_fill hf b h.2]
  | record _ ⟨_, _, _, _⟩, _ | enumeration _ _, _ | plain _ _, _ | literal _, _ | concealed, _ => rfl

theorem foldedList_fillList (hf : Fills Δ f) : (shapes : List Shape) → AgreeAll Δ shapes →
    foldedList (fillList f shapes) = foldedList shapes
  | [], _ => rfl
  | s :: rest, h => by
    rw [fillList, foldedList, foldedList, folded_fill hf s h.1, foldedList_fillList hf rest h.2]
end

theorem map_foldedField_fillFields (hf : Fills Δ f) {fields : List (Field Shape)}
    (h : AgreeFields Δ fields) :
    (fillFields f fields).map foldedField = fields.map foldedField := by
  rw [fillFields_eq, List.map_map]
  refine List.map_congr_left fun g hg => ?_
  rw [Function.comp_apply, foldedField, foldedField, fillField]
  simp only [folded_fill hf g.type (agreeFields_iff.mp h g hg)]

mutual
theorem agrees_fill (hf : Fills Δ f) : (s : Shape) → s.Agrees Δ → (s.fill f).Agrees Δ
  | reference key, hs => by
    rw [fill]
    cases h : f key with
    | none => exact hs
    | some d => exact (hf key d h).2
  | shared _, h => by
    rw [Agrees] at h
    exact h.elim
  | container _ inner _, h | nullable inner, h | guarded inner, h | chained inner _, h
  | defaulted inner _, h | noted inner _, h => by
    rw [Agrees] at h
    rw [fill, Agrees]
    exact agrees_fill hf inner h
  | tuple items _, h | union items, h => by
    rw [Agrees] at h
    rw [fill, Agrees]
    exact agreeAll_fillList hf items h
  | dict a b _, h | replaced a b, h => by
    rw [Agrees] at h
    rw [fill, Agrees]
    exact ⟨agrees_fill hf a h.1, agrees_fill hf b h.2⟩
  | record key ⟨name, doc, config, fields⟩, h => by
    rw [Agrees] at h
    rw [fill, Agrees, map_foldedField_fillFields hf h.2]
    exact ⟨h.1, agreeFields_fillFields hf fields h.2⟩
  | enumeration _ _, h | plain _ _, h | literal _, h | concealed, h => h

theorem agreeAll_fillList (hf : Fills Δ f) : (shapes : List Shape) → AgreeAll Δ shapes →
    AgreeAll Δ (fillList f shapes)
  | [], _ => trivial
  | s :: rest, h => ⟨agrees_fill hf s h.1, agreeAll_fillList hf rest h.2⟩

theorem agreeFields_fillFields (hf : Fills Δ f) : (fields : List (Field Shape)) →
    AgreeFields Δ fields → AgreeFields Δ (fillFields f fields)
  | [], _ => trivial
  | ⟨_, s, _, _, _⟩ :: rest, h => ⟨agrees_fill hf s h.1, agreeFields_fillFields hf rest h.2⟩
end

theorem key?_fill {s : Shape} {key : Key} (h : s.key? = some key) :
    (s.fill f).key? = some key := by
  cases s <;> simp_all [key?, fill]

mutual
theorem mem_refs_fill {k : Key} : (s : Shape) → s.Agrees Δ → k ∈ (s.fill f).refs →
    k ∈ s.refs ∧ f k = none ∨ ∃ key ∈ s.refs, ∃ d, f key = some d ∧ k ∈ d.refs
  | reference key, _, h => by
    rw [fill] at h
    cases hk : f key with
    | none =>
      rw [hk] at h
      have heq : k = key := by simpa using h
      subst heq
      exact .inl ⟨by simp, hk⟩
    | some d =>
      rw [hk] at h
      exact .inr ⟨key, by simp, d, hk, h⟩
  | shared _, h, _ => by
    rw [Agrees] at h
    exact h.elim
  | container _ inner _, ha, h | nullable inner, ha, h | guarded inner, ha, h
  | chained inner _, ha, h | defaulted inner _, ha, h | noted inner _, ha, h => by
    rw [Agrees] at ha
    simpa [fill] using mem_refs_fill inner ha (by simpa [fill] using h)
  | tuple items _, ha, h | union items, ha, h => by
    rw [Agrees] at ha
    simpa [fill] using mem_refs_fillList items ha (by simpa [fill] using h)
  | dict a b _, ha, h | replaced a b, ha, h => by
    rw [Agrees] at ha
    have hab : k ∈ (a.fill f).refs ∨ k ∈ (b.fill f).refs := by simpa [fill] using h
    have hcombine := hab.imp (mem_refs_fill a ha.1) (mem_refs_fill b ha.2)
    simp only [refs_dict, refs_replaced, List.mem_append]
    grind
  | record _ ⟨_, _, _, fields⟩, ha, h => by
    rw [Agrees] at ha
    simpa using mem_refs_fillFields fields ha.2 (by simpa [fill] using h)
  | enumeration _ _, _, h | plain _ _, _, h | literal _, _, h | concealed, _, h => by
    simp [fill] at h

theorem mem_refs_fillList {k : Key} : (shapes : List Shape) → AgreeAll Δ shapes →
    k ∈ (fillList f shapes).flatMap refs →
    k ∈ shapes.flatMap refs ∧ f k = none ∨
      ∃ key ∈ shapes.flatMap refs, ∃ d, f key = some d ∧ k ∈ d.refs
  | [], _, h => by cases h
  | s :: rest, ha, h => by
    rw [fillList, List.flatMap_cons, List.mem_append] at h
    have hcombine := h.imp (mem_refs_fill s ha.1) (mem_refs_fillList rest ha.2)
    simp only [List.flatMap_cons, List.mem_append]
    grind

theorem mem_refs_fillFields {k : Key} : (fields : List (Field Shape)) → AgreeFields Δ fields →
    k ∈ (fillFields f fields).flatMap (fun g => g.type.refs) →
    k ∈ fields.flatMap (fun g => g.type.refs) ∧ f k = none ∨
      ∃ key ∈ fields.flatMap (fun g => g.type.refs), ∃ d, f key = some d ∧ k ∈ d.refs
  | [], _, h => by cases h
  | ⟨_, s, _, _, _⟩ :: rest, ha, h => by
    rw [fillFields, List.flatMap_cons, List.mem_append] at h
    have hcombine := h.imp (mem_refs_fill s ha.1) (mem_refs_fillFields rest ha.2)
    simp only [List.flatMap_cons, List.mem_append]
    grind
end

end Shape

/-! ## Settling -/

/-- What is known of the definitions that are settled. -/
structure Tidied (Δ : Outlines) (isLoose : Key → Prop) (p : Found × Shape) : Prop where
  key : p.2.key? = some p.1.key
  agrees : p.2.Agrees Δ
  refs : ∀ k ∈ p.2.refs, isLoose k

theorem fills_single {isLoose : Key → Prop} {done : List (Found × Shape)}
    (h : ∀ p ∈ done, Tidied Δ isLoose p) :
    Shape.Fills Δ (Layout.settle.single? done) ∧
      ∀ key d, Layout.settle.single? done key = some d → ∀ k ∈ d.refs, isLoose k := by
  have hfind : ∀ key d, Layout.settle.single? done key = some d →
      ∃ p ∈ done, p.1.key = key ∧ p.2 = d := by
    intro key d hd
    rw [Layout.settle.single?, Option.map_eq_some_iff] at hd
    obtain ⟨p, hp, rfl⟩ := hd
    refine ⟨p, List.mem_of_find?_eq_some hp, ?_, rfl⟩
    have := List.find?_some hp
    simp only [Bool.and_eq_true, decide_eq_true_eq] at this
    exact this.1
  constructor
  · intro key d hd
    obtain ⟨p, hp, rfl, rfl⟩ := hfind key d hd
    exact ⟨(h p hp).key, (h p hp).agrees⟩
  · intro key d hd
    obtain ⟨p, hp, rfl, rfl⟩ := hfind key d hd
    exact (h p hp).refs

theorem isSome_single?_of_mem {done : List (Found × Shape)} {p : Found × Shape} (hp : p ∈ done)
    (hs : p.1.isSingle = true) : (Layout.settle.single? done p.1.key).isSome := by
  rw [Layout.settle.single?, Option.isSome_map, List.find?_isSome]
  exact ⟨p, hp, by simp [hs]⟩

theorem map_fst_settle {found : List Found} (h : ∀ f ∈ found, (ds.find? f.key).isSome) :
    (Layout.settle ds found).map Prod.fst = found := by
  induction found with
  | nil => rfl
  | cons f rest ih =>
    obtain ⟨d, hd⟩ := Option.isSome_iff_exists.mp (h f (List.mem_cons_self ..))
    rw [Layout.settle, hd, List.map_cons, ih fun g hg => h g (List.mem_cons_of_mem _ hg)]

theorem mem_map_settle {found : List Found} (hdef : ∀ f ∈ found, (ds.find? f.key).isSome) {g : Found}
    (hg : g ∈ found) : ∃ d, (g, d) ∈ Layout.settle ds found := by
  rw [← map_fst_settle hdef] at hg
  obtain ⟨q, hq, rfl⟩ := List.mem_map.mp hg
  exact ⟨q.2, hq⟩

theorem mem_keys_of_loose {found : List Found} (hdef : ∀ f ∈ found, (ds.find? f.key).isSome)
    {key : Key} (h : Loose found key) :
    key ∈ (((Layout.settle ds found).filter fun p => !p.1.isSingle).map
      fun p => (p.1.key, p.2)).map Prod.fst := by
  obtain ⟨g, hg, rfl, hs⟩ := h
  obtain ⟨d, hd⟩ := mem_map_settle hdef hg
  rw [List.map_map]
  exact List.mem_map.mpr ⟨(g, d), List.mem_filter.mpr ⟨hd, by simp [hs]⟩, rfl⟩

theorem loose_of_single?_eq_none {f : Found} {rest : List Found} {isLoose : Key → Prop}
    (h : Ahead isSaid ds (fun _ => False) isLoose (f :: rest))
    (hdef : ∀ g ∈ rest, (ds.find? g.key).isSome)
    (hloose : ∀ g ∈ rest, g.isSingle = false → isLoose g.key) {d : Shape}
    (hd : ds.find? f.key = some d) {k : Key} (hk : k ∈ d.refs)
    (hnone : Layout.settle.single? (Layout.settle ds rest) k = none) : isLoose k := by
  rw [← Shape.keys_mentions isSaid] at hk
  obtain ⟨m, hm, rfl⟩ := List.mem_map.mp hk
  rcases h.1 d hd m hm with hf | hl | hr
  · exact hf.elim
  · exact hl
  · obtain ⟨g, hg, hgk⟩ := List.mem_map.mp hr
    rw [← hgk]
    refine hloose g hg ?_
    obtain ⟨d', hd'⟩ := mem_map_settle hdef hg
    by_contra hne
    have hsome := isSome_single?_of_mem hd' (by simpa using hne)
    rw [hgk, hnone] at hsome
    cases hsome

theorem tidied_settle {found : List Found} {isLoose : Key → Prop}
    (hdef : ∀ f ∈ found, ∃ d, ds.find? f.key = some d ∧ d.key? = some f.key ∧ d.Agrees Δ)
    (hloose : ∀ f ∈ found, f.isSingle = false → isLoose f.key)
    (h : Ahead isSaid ds (fun _ => False) isLoose found) :
    ∀ p ∈ Layout.settle ds found, Tidied Δ isLoose p := by
  induction found with
  | nil => nofun
  | cons f rest ih =>
    have hdef' := fun g hg => hdef g (List.mem_cons_of_mem f hg)
    have hloose' := fun g hg => hloose g (List.mem_cons_of_mem f hg)
    have hsome : ∀ g ∈ rest, (ds.find? g.key).isSome := by
      intro g hg
      obtain ⟨d, hd, -⟩ := hdef' g hg
      rw [hd]
      rfl
    have hrest := ih hdef' hloose' h.2
    obtain ⟨d, hd, hk, ha⟩ := hdef f (List.mem_cons_self ..)
    obtain ⟨hfills, hrefs⟩ := fills_single hrest
    rw [Layout.settle, hd]
    intro p hp
    rcases List.mem_cons.mp hp with rfl | hp
    · refine ⟨Shape.key?_fill hk, Shape.agrees_fill hfills d ha, ?_⟩
      intro k hkd
      rcases Shape.mem_refs_fill d ha hkd with ⟨hkr, hnone⟩ | ⟨key, -, s, hs, hks⟩
      · exact loose_of_single?_eq_none h hsome hloose' hd hkr hnone
      · exact hrefs key s hs k hks
    · exact hrest p hp

theorem Layout.stepsFor_eq (isSaid : Anchor → Bool) (ds : Definitions) (top : Shape) :
    stepsFor isSaid ds top =
      (top.mentions isSaid).length + (ds.map fun p => (p.2.mentions isSaid).length).sum :=
  List.foldl_eq_apply_foldr

/-- A record to which no definition refers is found first, and is single. -/
theorem gathering_needed
    (hclosed : ∀ key d, ds.find? key = some d → ∀ k ∈ d.refs, (ds.find? k).isSome)
    {key : Key} {r : Record Shape} (hkey : ds.find? key = some (.record key r))
    (htop : ∀ k d, ds.find? k = some d → key ∉ d.refs) :
    Gathering isSaid ds key [] (Layout.needed isSaid ds (.reference key)) := by
  have hm : ∀ m ∈ (Shape.record key r).mentions isSaid, m.key ∈ (Shape.record key r).refs := by
    intro m hm
    rw [← Shape.keys_mentions isSaid]
    exact List.mem_map_of_mem hm
  have hfirst : Gathering isSaid ds key ((Shape.record key r).mentions isSaid) [⟨key, true⟩] := by
    refine ⟨⟨[], rfl, nofun⟩, ?_, fun m h => hclosed key _ hkey _ (hm m h), ?_, ?_, trivial⟩
    · intro f hf
      rw [List.mem_singleton.mp hf, hkey]
      rfl
    · intro m h heq
      exact htop key _ hkey (heq ▸ hm m h)
    · intro d hd m h
      rw [hkey] at hd
      cases hd
      exact .inl h
  have hsteps : Layout.stepsFor isSaid ds (.reference key) =
      (ds.map fun p => (p.2.mentions isSaid).length).sum + 1 := by
    rw [Layout.stepsFor_eq, Nat.add_comm]
    rfl
  rw [Layout.needed, hsteps, Shape.mentions, gather]
  simp only [List.any_nil, Bool.false_eq_true, if_false, hkey, List.nil_append, List.append_nil]
  refine gathering_gather hfirst hclosed htop ?_
  have hcost := weightLeft_append Prod.fst
    (fun p : Key × Shape => (p.2.mentions isSaid).length) (Definitions.mem_of_find? hkey)
    (List.not_mem_nil : key ∉ [])
  have hall : weightLeft Prod.fst (fun p : Key × Shape => (p.2.mentions isSaid).length)
      ds [] = (ds.map fun p => (p.2.mentions isSaid).length).sum := by
    simp [weightLeft]
  rw [hall] at hcost
  simp only [List.nil_append] at hcost
  simp only [List.map_cons, List.map_nil]
  omega

theorem good_tidy (isSaid : Anchor → Bool) {ds : Definitions}
    (hclosed : ∀ key d, ds.find? key = some d → ∀ k ∈ d.refs, (ds.find? k).isSome)
    {key : Key} {r : Record Shape} (hkey : ds.find? key = some (.record key r))
    (hfields : Shape.AgreeFields Δ r.fields) (hnew : Δ key.owner = none)
    (hother : ∀ k d, k ≠ key → ds.find? k = some d → d.key? = some k ∧ d.Agrees Δ) :
    (Layout.tidy isSaid ds (.reference key)).Good Δ key
      { r with fields := r.fields.map Shape.foldedField } := by
  have htop : ∀ k d, ds.find? k = some d → key ∉ d.refs := by
    intro k d hd hm
    have hsome : (Δ key.owner).isSome := by
      by_cases hk : k = key
      · rw [hk, hkey] at hd
        cases hd
        rw [Shape.refs_record] at hm
        exact Shape.isSome_of_mem_refsOfFields r.fields hfields hm
      · exact Shape.isSome_of_mem_refs d (hother k d hk hd).2 hm
    rw [hnew] at hsome
    cases hsome
  have hg : Gathering isSaid ds key [] (Layout.needed isSaid ds (.reference key)) :=
    gathering_needed hclosed hkey htop
  -- the record comes first, so that it stands on top
  obtain ⟨rest, hrest, hne⟩ := hg.first
  have hahead : Ahead isSaid ds (fun _ => False) (Loose rest) (⟨key, true⟩ :: rest) := by
    have h := hg.ahead
    rw [hrest, loose_cons_single] at h
    simpa using h
  have hdef : ∀ g ∈ rest, (ds.find? g.key).isSome := fun g h =>
    hg.defined g (hrest ▸ List.mem_cons_of_mem _ h)
  have hloose : ∀ g ∈ rest, g.isSingle = false → Loose rest g.key := fun g h hs => ⟨g, h, rfl, hs⟩
  have hsettled : ∀ p ∈ Layout.settle ds rest, Tidied Δ (Loose rest) p :=
    tidied_settle (fun g h => by
      obtain ⟨d, hd⟩ := Option.isSome_iff_exists.mp (hdef g h)
      exact ⟨d, hd, hother g.key d (hne g h) hd⟩) hloose hahead.2
  obtain ⟨hfills, hrefs⟩ := fills_single hsettled
  rw [Layout.tidy_of_first hrest hkey]
  refine ⟨⟨_, rfl, Shape.map_foldedField_fillFields hfills hfields,
    Shape.agreeFields_fillFields hfills r.fields hfields⟩, ?_, ?_, ?_⟩
  · intro p hp
    obtain ⟨q, hq, rfl⟩ := List.mem_map.mp hp
    have htidied := hsettled q (List.mem_filter.mp hq).1
    exact ⟨htidied.key, htidied.agrees⟩
  · intro k hk
    rw [Shape.refs_record] at hk
    rcases Shape.mem_refs_fillFields r.fields hfields hk with ⟨hkr, hnone⟩ | ⟨key', -, s, hs, hks⟩
    · refine mem_keys_of_loose hdef (loose_of_single?_eq_none hahead hdef hloose hkey ?_ hnone)
      rw [Shape.refs_record]
      exact hkr
    · exact mem_keys_of_loose hdef (hrefs key' s hs k hks)
  · intro p hp k hk
    obtain ⟨q, hq, rfl⟩ := List.mem_map.mp hp
    exact mem_keys_of_loose hdef ((hsettled q (List.mem_filter.mp hq).1).refs k hk)

namespace Shaping
variable {w : Workbench}

theorem agreeFields_laid {fields os : List (Field Shape)}
    (h : List.Forall₂ (LaidField Δ w) fields os) :
    fields.map Shape.foldedField = os ∧ Shape.AgreeFields Δ fields := by
  constructor
  · induction h with
    | nil => rfl
    | cons h _ ih => rw [List.map_cons, h.eq, ih]
  · rw [Shape.agreeFields_iff]
    intro f hf
    obtain ⟨o, -, hl⟩ := exists_of_forall₂ h hf
    exact hl.agrees

theorem agrees_record {key : Key} {r : Record TypeExpr} {fields os : List (Field Shape)}
    (h : List.Forall₂ (LaidField Δ w) fields os)
    (hΔ : Δ key.owner =
      some (.record { name := r.name, doc := r.doc, config := r.config, fields := os })) :
    (Shape.record key { name := r.name, doc := r.doc, config := r.config, fields }).Agrees Δ := by
  obtain ⟨hmap, hfields⟩ := agreeFields_laid h
  rw [Shape.Agrees, hmap]
  exact ⟨hΔ, hfields⟩

theorem defined_record {key : Key} {r : Record Shape}
    {os : List (Field Shape)} (h : List.Forall₂ (LaidField Δ w) r.fields os) :
    ∀ k ∈ (Shape.record key r).refs, (w.definitions.find? k).isSome := by
  intro k hk
  rw [Shape.refs_record, List.mem_flatMap] at hk
  obtain ⟨f, hf, hk⟩ := hk
  obtain ⟨o, -, hl⟩ := exists_of_forall₂ h hf
  exact hl.defined k hk

theorem good_define (isSaid : Anchor → Bool) (hw : w.Good Δ) {key : Key}
    (hnew : Δ key.owner = none) {r : Record TypeExpr} {fields os : List (Field Shape)}
    (h : List.Forall₂ (LaidField Δ w) fields os) :
    (Layout.tidy isSaid (w.definitions.put key (.record key
      { name := r.name, doc := r.doc, config := r.config, fields })) (.reference key)).Good Δ key
        { name := r.name, doc := r.doc, config := r.config, fields := os } := by
  obtain ⟨hmap, hfields⟩ := agreeFields_laid h
  rw [← hmap]
  refine good_tidy isSaid (r := { name := r.name, doc := r.doc, config := r.config, fields })
    (fun k d hd k' hk' => ?_) (by rw [Definitions.find?_put, if_pos rfl]) hfields hnew
    (fun k d hk hd => ?_)
  · have hsome : (w.definitions.find? k').isSome := by
      rw [Definitions.find?_put] at hd
      split at hd
      · cases hd
        exact defined_record h k' hk'
      · exact hw.closed k d hd k' hk'
    rw [Definitions.find?_put]
    split
    · rfl
    · exact hsome
  · rw [Definitions.find?_put, if_neg (Ne.symm hk)] at hd
    exact hw.defines k d hd

end Shaping
end Procedoc
