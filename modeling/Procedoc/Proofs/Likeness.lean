import Mathlib.Data.List.Forall2
import Mathlib.Data.List.Perm.Subperm
import Procedoc.Json

/-! # Likeness of data

Two values are alike when the same stands at every place in them: the order of an object's keys does
not count, and numbers count by their size, true and false being 1 and 0.  Likeness is `Json.equal`
as a relation, for values in which no object has a key twice (`Json.alike_of_equal` and
`Json.equal_of_alike`). -/
namespace Procedoc
set_option autoImplicit false

/-! ## Entries as a function of the key -/

namespace Entries
variable {α : Type}

theorem mem_keys_of_mem {e : Entries α} {p : String × α} (h : p ∈ e) : p.1 ∈ keys e :=
  List.mem_map_of_mem h

theorem get?_without (e : Entries α) (key k : String) :
    get? (without e key) k = if k = key then none else get? e k := by
  induction e with
  | nil => simp [without]
  | cons p rest ih =>
    by_cases hp : p.1 = key
    · have hw : without (p :: rest) key = without rest key := by simp [without, hp]
      rw [hw, ih]
      by_cases hk : k = key
      · rw [if_pos hk, if_pos hk]
      · rw [if_neg hk, if_neg hk, get?, if_neg (by rw [hp]; exact fun h => hk h.symm)]
    · have hw : without (p :: rest) key = p :: without rest key := by simp [without, hp]
      rw [hw, get?, get?, ih]
      by_cases hk : p.1 = k
      · rw [if_pos hk, if_pos hk, if_neg (by rw [← hk]; exact hp)]
      · rw [if_neg hk, if_neg hk]

theorem get?_filter {e : Entries α} (hn : (keys e).Nodup) (p : String × α → Bool) (k : String) :
    get? (e.filter p) k = (get? e k).filter fun v => p (k, v) := by
  induction e with
  | nil => rfl
  | cons q rest ih =>
    have hn' := List.nodup_cons.mp hn
    rw [List.filter_cons, get?]
    by_cases hk : q.1 = k
    · subst hk
      rw [if_pos rfl, Option.filter_some]
      split
      · rw [get?, if_pos rfl]
      · refine get?_eq_none_iff.mpr fun hm => hn'.1 ?_
        exact (List.Sublist.map Prod.fst List.filter_sublist).subset hm
    · rw [if_neg hk, ← ih hn'.2]
      split
      · rw [get?, if_neg hk]
      · rfl

/-- Where the entries on top repeat no key, each of them is what is found in the end. -/
theorem get?_override (base : Entries α) {top : Entries α} (h : (keys top).Nodup) (k : String) :
    get? (override base top) k = (get? top k).or (get? base k) := by
  induction top generalizing base with
  | nil => rfl
  | cons p rest ih =>
    have hn := List.nodup_cons.mp h
    rw [override, ih _ hn.2, get?_put, get?]
    by_cases hk : p.1 = k
    · have hrest : get? rest k = none := get?_eq_none_iff.mpr (hk ▸ hn.1)
      rw [if_pos hk, if_pos hk, hrest]
      rfl
    · rw [if_neg hk, if_neg hk]

/-- Entries that are put over others one after another are found where they are when they are put
together first. -/
theorem get?_override_override (base : Entries α) {middle : Entries α}
    (h : (keys middle).Nodup) (top : Entries α) (k : String) :
    get? (override (override base middle) top) k = get? (override base (override middle top)) k := by
  have hcongr : ∀ (top x y : Entries α), (∀ k, get? x k = get? y k) →
      ∀ k, get? (override x top) k = get? (override y top) k := by
    intro top
    induction top with
    | nil => exact fun x y hxy => hxy
    | cons p rest ih =>
      refine fun x y hxy => ih _ _ fun k => ?_
      rw [get?_put, get?_put, hxy]
  induction top generalizing middle with
  | nil => rfl
  | cons p rest ih =>
    rw [override, override, ← ih (nodup_keys_put h p.1 p.2)]
    refine hcongr rest _ _ (fun k => ?_) k
    rw [get?_put, get?_override _ h, get?_override _ (nodup_keys_put h p.1 p.2), get?_put]
    split <;> rfl

/-- What is listed under a key is found under it where nothing else is listed under it. -/
theorem get?_ofList {pairs : List (String × α)} {k : String} {v : α}
    (h : (k, v) ∈ pairs) (hown : ∀ w, (k, w) ∈ pairs → w = v) : get? (ofList pairs) k = some v := by
  have hk : k ∈ keys (ofList pairs) := by
    rw [keys_ofList, List.mem_eraseDups]
    exact mem_keys_of_mem h
  cases hw : get? (ofList pairs) k with
  | none => exact absurd hk (get?_eq_none_iff.mp hw)
  | some w =>
    rcases mem_of_mem_override (mem_of_get? hw) with hm | hm
    · cases hm
    · rw [hown w hm]

theorem nodup_keys_without {e : Entries α} (h : (keys e).Nodup) (key : String) :
    (keys (without e key)).Nodup :=
  h.sublist (List.Sublist.map _ List.filter_sublist)

/-! ### Values that change and keys that stay -/

section MapValues
variable {β : Type} (f : α → β)

theorem mapValues_put (e : Entries α) (key : String) (v : α) :
    mapValues f (put e key v) = put (mapValues f e) key (f v) := by
  induction e with
  | nil => rfl
  | cons p rest ih =>
    rw [put]
    by_cases h : p.1 = key
    · rw [if_pos h]
      simp [mapValues, put, h]
    · rw [if_neg h]
      simp only [mapValues, List.map_cons, put, if_neg h] at ih ⊢
      rw [ih]

theorem mapValues_override (e top : Entries α) :
    mapValues f (override e top) = override (mapValues f e) (mapValues f top) := by
  induction top generalizing e with
  | nil => rfl
  | cons p rest ih =>
    rw [override, ih, mapValues_put]
    rfl

theorem mapValues_ofList (pairs : List (String × α)) :
    mapValues f (ofList pairs) = ofList (mapValues f pairs) := mapValues_override f [] pairs

theorem mapValues_filter (p : String → Bool) (e : Entries α) :
    mapValues f (e.filter fun q => p q.1) = (mapValues f e).filter fun q => p q.1 := by
  rw [mapValues, mapValues, List.filter_map]
  rfl

theorem mapValues_without (e : Entries α) (key : String) :
    mapValues f (without e key) = without (mapValues f e) key :=
  mapValues_filter f (fun k => k != key) e

theorem has_mapValues (e : Entries α) (key : String) : has (mapValues f e) key = has e key := by
  rw [has, has, get?_mapValues, Option.isSome_map]

end MapValues

end Entries

/-! ## Related options -/

section Related
variable {α β γ δ : Type} {R : α → β → Prop} {S : γ → δ → Prop}

theorem rel_some_left {a : α} {y : Option β} :
    Option.Rel R (some a) y ↔ ∃ b, y = some b ∧ R a b := by
  constructor
  · rintro ⟨h⟩
    exact ⟨_, rfl, h⟩
  · rintro ⟨b, rfl, h⟩
    exact .some h

theorem rel_none_left {y : Option β} : Option.Rel R none y ↔ y = none := by
  constructor
  · rintro ⟨⟩
    rfl
  · rintro rfl
    exact .none

theorem rel_none_right {x : Option α} : Option.Rel R x none ↔ x = none := by
  constructor
  · rintro ⟨⟩
    rfl
  · rintro rfl
    exact .none

theorem rel_refl {T : α → α → Prop} (h : ∀ a, T a a) (x : Option α) : Option.Rel T x x := by
  cases x with
  | none => exact .none
  | some a => exact .some (h a)

theorem rel_isSome {x : Option α} {y : Option β} (h : Option.Rel R x y) : x.isSome = y.isSome := by
  cases h <;> rfl

theorem rel_bind {x : Option α} {y : Option β} (h : Option.Rel R x y) {f : α → Option γ}
    {g : β → Option δ} (hfg : ∀ a b, x = some a → y = some b → R a b → Option.Rel S (f a) (g b)) :
    Option.Rel S (x.bind f) (y.bind g) := by
  cases h with
  | none => exact .none
  | some h => exact hfg _ _ rfl rfl h

theorem rel_map {x : Option α} {y : Option β} (h : Option.Rel R x y) {f : α → γ} {g : β → δ}
    (hfg : ∀ a b, x = some a → y = some b → R a b → S (f a) (g b)) :
    Option.Rel S (x.map f) (y.map g) := by
  cases h with
  | none => exact .none
  | some h => exact .some (hfg _ _ rfl rfl h)

theorem rel_or {x x' : Option α} {y y' : Option β} (h : Option.Rel R x y)
    (h' : Option.Rel R x' y') : Option.Rel R (x.or x') (y.or y') := by
  cases h with
  | none => exact h'
  | some h => exact .some h

end Related

namespace Json

/-! ## Places in data -/

/-- To prove something of all values it is enough to go into their parts. -/
theorem parts_induction {motive : Json → Prop}
    (scalar : ∀ j, (∀ items, j ≠ .arr items) → (∀ e, j ≠ .obj e) → motive j)
    (arr : ∀ items, (∀ x ∈ items, motive x) → motive (.arr items))
    (obj : ∀ e, (∀ p ∈ e, motive p.2) → motive (.obj e)) (j : Json) : motive j := by
  match j with
  | .arr items =>
    refine arr items fun x hx => ?_
    have := List.sizeOf_lt_of_mem hx
    exact parts_induction scalar arr obj x
  | .obj e =>
    refine obj e fun p hp => ?_
    have h₁ := List.sizeOf_lt_of_mem hp
    have h₂ : sizeOf p.2 < sizeOf p := by
      cases p
      simp only [Prod.mk.sizeOf_spec]
      omega
    exact parts_induction scalar arr obj p.2
  | .null | .bool _ | .int _ | .decimal _ | .unbounded _ | .str _ => exact scalar _ nofun nofun
termination_by sizeOf j
decreasing_by
  · simp only [Json.arr.sizeOf_spec]; omega
  · simp only [Json.obj.sizeOf_spec]; omega

/-- What a value is, apart from what is in it. -/
inductive Face where
  | null
  | number (x : Decimal)
  | unbounded (u : Unbounded)
  | text (s : String)
  | list (length : Nat)
  | object

/-- A fraction without the difference between the two zeros. -/
def size (x : Decimal) : Decimal := if x.isZero then ⟨false, 0, 0⟩ else x

theorem same_iff (x y : Decimal) : x.same y = true ↔ size x = size y := by
  unfold Decimal.same size Decimal.isZero
  by_cases hx : x.digits = 0 <;> by_cases hy : y.digits = 0 <;> simp [hx, hy]
  · constructor
    · rintro rfl
      exact absurd hx hy
    · rintro rfl
      exact absurd rfl hy
  · constructor
    · rintro rfl
      exact absurd hy hx
    · rintro rfl
      exact absurd rfl hx

def face : Json → Face
  | null => .null
  | bool b => .number (size (.ofInt (if b then 1 else 0)))
  | int n => .number (size (.ofInt n))
  | decimal x => .number (size x)
  | unbounded u => .unbounded u
  | str s => .text s
  | arr items => .list items.length
  | obj _ => .object

/-- A step into a value. -/
inductive Step where
  | key (k : String)
  | item (i : Nat)

/-- What stands at a place in a value. -/
def at? : List Step → Json → Option Face
  | [], j => some j.face
  | .key k :: rest, .obj e => (Entries.get? e k).bind (at? rest)
  | .item i :: rest, .arr items => items[i]?.bind (at? rest)
  | _ :: _, _ => none

/-- Whether the same stands at every place in two values. -/
def Alike (a b : Json) : Prop := ∀ path, at? path a = at? path b

theorem Alike.refl (a : Json) : Alike a a := fun _ => rfl

theorem Alike.symm {a b : Json} (h : Alike a b) : Alike b a := fun path => (h path).symm

theorem Alike.trans {a b c : Json} (h : Alike a b) (h' : Alike b c) : Alike a c :=
  fun path => (h path).trans (h' path)

theorem Alike.face_eq {a b : Json} (h : Alike a b) : a.face = b.face := by
  have h₀ := h []
  simpa only [at?, Option.some.injEq] using h₀

theorem Alike.isScalar {a b : Json} (h : Alike a b) (ha : ∀ items, a ≠ .arr items)
    (ho : ∀ e, a ≠ .obj e) : (∀ items, b ≠ .arr items) ∧ ∀ e, b ≠ .obj e := by
  have hf := h.face_eq
  cases a <;> cases b <;> simp_all [face]

theorem alike_scalar {a b : Json} (ha : ∀ items, a ≠ .arr items) (ha' : ∀ e, a ≠ .obj e)
    (h : a.face = b.face) : Alike a b := by
  intro path
  cases path with
  | nil => simp only [at?, h]
  | cons step rest => cases a <;> cases b <;> cases step <;> simp_all [at?, face]

/-- Objects are alike when alike values stand under each key. -/
theorem alike_obj {xs ys : Entries Json} : Alike (.obj xs) (.obj ys) ↔
    ∀ k, Option.Rel Alike (Entries.get? xs k) (Entries.get? ys k) := by
  constructor
  · intro h k
    cases hx : Entries.get? xs k with
    | none =>
      cases hy : Entries.get? ys k with
      | none => exact .none
      | some y =>
        have hk := h [.key k]
        simp [at?, hx, hy] at hk
    | some x =>
      cases hy : Entries.get? ys k with
      | none =>
        have hk := h [.key k]
        simp [at?, hx, hy] at hk
      | some y =>
        refine .some fun path => ?_
        have hk := h (.key k :: path)
        simpa only [at?, hx, hy, Option.bind_some] using hk
  · intro h path
    cases path with
    | nil => rfl
    | cons step rest =>
      cases step with
      | item i => rfl
      | key k =>
        have hk := h k
        simp only [at?]
        generalize Entries.get? xs k = x at hk ⊢
        generalize Entries.get? ys k = y at hk ⊢
        cases hk with
        | none => rfl
        | some hxy => exact hxy rest

theorem alike_arr {xs ys : List Json} : Alike (.arr xs) (.arr ys) ↔ List.Forall₂ Alike xs ys := by
  constructor
  · intro h
    have hl : xs.length = ys.length := by
      have h₀ := h.face_eq
      simpa only [face, Face.list.injEq] using h₀
    refine List.forall₂_iff_get.mpr ⟨hl, fun i hx hy path => ?_⟩
    have hi := h (.item i :: path)
    simp only [at?, List.getElem?_eq_getElem hx, List.getElem?_eq_getElem hy,
      Option.bind_some] at hi
    simpa only [List.get_eq_getElem] using hi
  · intro h path
    cases path with
    | nil => simp only [at?, face, h.length_eq]
    | cons step rest =>
      cases step with
      | key k => rfl
      | item i =>
        simp only [at?]
        by_cases hi : i < xs.length
        · have hi' : i < ys.length := h.length_eq ▸ hi
          have hxy := (List.forall₂_iff_get.mp h).2 i hi hi'
          rw [List.getElem?_eq_getElem hi, List.getElem?_eq_getElem hi']
          exact hxy rest
        · have hi' : ¬ i < ys.length := h.length_eq ▸ hi
          rw [List.getElem?_eq_none (by omega), List.getElem?_eq_none (by omega)]

theorem Alike.exists_obj {xs : Entries Json} {b : Json} (h : Alike (.obj xs) b) :
    ∃ ys, b = .obj ys ∧ ∀ k, Option.Rel Alike (Entries.get? xs k) (Entries.get? ys k) := by
  cases b with
  | obj ys => exact ⟨ys, rfl, alike_obj.mp h⟩
  | _ => cases h.face_eq

theorem Alike.exists_arr {xs : List Json} {b : Json} (h : Alike (.arr xs) b) :
    ∃ ys, b = .arr ys ∧ List.Forall₂ Alike xs ys := by
  cases b with
  | arr ys => exact ⟨ys, rfl, alike_arr.mp h⟩
  | _ => cases h.face_eq

/-! ## Values in which no key is repeated -/

/-- Whether no object in a value has a key twice. -/
inductive Distinct : Json → Prop where
  | scalar {j : Json} (ha : ∀ items, j ≠ .arr items) (ho : ∀ e, j ≠ .obj e) : Distinct j
  | arr {items : List Json} (h : ∀ x ∈ items, Distinct x) : Distinct (.arr items)
  | obj {e : Entries Json} (hn : (Entries.keys e).Nodup) (h : ∀ p ∈ e, Distinct p.2) :
      Distinct (.obj e)

theorem distinct_arr {items : List Json} : Distinct (.arr items) ↔ ∀ x ∈ items, Distinct x := by
  constructor
  · intro h
    cases h with
    | scalar ha ho => exact absurd rfl (ha items)
    | arr h => exact h
  · exact .arr

theorem distinct_obj {e : Entries Json} :
    Distinct (.obj e) ↔ (Entries.keys e).Nodup ∧ ∀ p ∈ e, Distinct p.2 := by
  constructor
  · intro h
    cases h with
    | scalar ha ho => exact absurd rfl (ho e)
    | obj hn h => exact ⟨hn, h⟩
  · rintro ⟨hn, h⟩
    exact .obj hn h

theorem distinct_override {a : Json} {top : Entries Json} (ha : Distinct a)
    (ht : ∀ p ∈ top, Distinct p.2) : Distinct (a.override (.obj top)) := by
  have hbase : (Entries.keys a.entries).Nodup ∧ ∀ p ∈ a.entries, Distinct p.2 := by
    cases a with
    | obj e => exact distinct_obj.mp ha
    | _ => exact ⟨.nil, nofun⟩
  refine distinct_obj.mpr ⟨Entries.nodup_keys_override hbase.1 _, fun p hp => ?_⟩
  rcases Entries.mem_of_mem_override hp with h | h
  · exact hbase.2 p h
  · exact ht p h

theorem sameListBy_iff {leaf : Json → Json → Bool} {xs ys : List Json} :
    sameListBy leaf xs ys = true ↔ List.Forall₂ (fun x y => sameBy leaf x y = true) xs ys := by
  induction xs generalizing ys with
  | nil => cases ys <;> simp [sameListBy]
  | cons x xs ih => cases ys <;> simp [sameListBy, ih]

theorem sameEntriesBy_iff {leaf : Json → Json → Bool} {xs ys : Entries Json} :
    sameEntriesBy leaf xs ys = true ↔
      ∀ p ∈ xs, ∃ y, Entries.get? ys p.1 = some y ∧ sameBy leaf p.2 y = true := by
  induction xs with
  | nil => simp [sameEntriesBy]
  | cons p rest ih =>
    simp only [sameEntriesBy, Bool.and_eq_true, ih, List.forall_mem_cons]
    cases Entries.get? ys p.1 <;> simp

theorem sameListBy_map {leaf : Json → Json → Bool} {f : Json → Json} {xs ys : List Json}
    (h : ∀ x ∈ xs, ∀ y ∈ ys, sameBy leaf (f x) (f y) = sameBy leaf x y) :
    sameListBy leaf (xs.map f) (ys.map f) = sameListBy leaf xs ys := by
  induction xs generalizing ys with
  | nil => cases ys <;> rfl
  | cons x xs ih =>
    cases ys with
    | nil => rfl
    | cons y ys =>
      rw [List.map_cons, List.map_cons, sameListBy, sameListBy,
        h x (List.mem_cons_self ..) y (List.mem_cons_self ..),
        ih fun x hx y hy => h x (List.mem_cons_of_mem _ hx) y (List.mem_cons_of_mem _ hy)]

theorem sameEntriesBy_mapValues {leaf : Json → Json → Bool} {f : Json → Json} {xs ys : Entries Json}
    (h : ∀ p ∈ xs, ∀ y, Entries.get? ys p.1 = some y → sameBy leaf (f p.2) (f y) =
      sameBy leaf p.2 y) :
    sameEntriesBy leaf (Entries.mapValues f xs) (Entries.mapValues f ys) =
      sameEntriesBy leaf xs ys := by
  induction xs with
  | nil => rfl
  | cons p xs ih =>
    have hrest := ih fun q hq => h q (List.mem_cons_of_mem _ hq)
    rw [Entries.mapValues] at hrest
    rw [Entries.mapValues, List.map_cons, sameEntriesBy, sameEntriesBy, hrest,
      Entries.get?_mapValues]
    cases hy : Entries.get? ys p.1 with
    | none => rfl
    | some y => simp only [Option.map_some, h p (List.mem_cons_self ..) y hy]

theorem equalLeaf_iff {a b : Json} (ha : ∀ items, a ≠ .arr items) (ho : ∀ e, a ≠ .obj e) :
    equalLeaf a b = true ↔ a.face = b.face := by
  cases a <;> cases b <;> simp_all [equalLeaf, quantity?, face, same_iff]

/-- Values that are equal are alike, where no key is repeated. -/
theorem alike_of_equal {a b : Json} (ha : Distinct a) (hb : Distinct b)
    (h : equal a b = true) : Alike a b := by
  induction a using parts_induction generalizing b with
  | scalar a ha' ho' =>
    refine alike_scalar ha' ho' ((equalLeaf_iff ha' ho').mp ?_)
    cases a <;> simp_all [equal, sameBy]
  | arr xs ih =>
    cases b with
    | arr ys =>
      simp only [equal, sameBy, sameListBy_iff] at h
      rw [distinct_arr] at ha hb
      refine alike_arr.mpr ?_
      obtain ⟨hl, hxy⟩ := List.forall₂_iff_get.mp h
      refine List.forall₂_iff_get.mpr ⟨hl, fun i hx hy => ?_⟩
      exact ih _ (List.getElem_mem hx) (ha _ (List.getElem_mem hx))
        (hb _ (List.getElem_mem hy)) (hxy i hx hy)
    | _ => simp [equal, sameBy] at h
  | obj xs ih =>
    cases b with
    | obj ys =>
      simp only [equal, sameBy, Bool.and_eq_true, beq_iff_eq, sameEntriesBy_iff] at h
      obtain ⟨hl, hsame⟩ := h
      rw [distinct_obj] at ha hb
      have hsub : Entries.keys xs ⊆ Entries.keys ys := by
        intro k hk
        obtain ⟨p, hp, rfl⟩ := List.mem_map.mp hk
        obtain ⟨y, hy, -⟩ := hsame p hp
        have hk := Entries.mem_keys_of_mem (Entries.mem_of_get? hy)
        exact hk
      have hperm : (Entries.keys xs).Perm (Entries.keys ys) :=
        (List.subperm_of_subset ha.1 hsub).perm_of_length_le (by simp [Entries.keys, hl])
      refine alike_obj.mpr fun k => ?_
      cases hx : Entries.get? xs k with
      | none =>
        have hk : k ∉ Entries.keys ys := fun hm =>
          Entries.get?_eq_none_iff.mp hx (hperm.mem_iff.mpr hm)
        rw [Entries.get?_eq_none_iff.mpr hk]
        exact .none
      | some x =>
        have hm := Entries.mem_of_get? hx
        obtain ⟨y, hy, hxy⟩ := hsame _ hm
        rw [hy]
        exact .some (ih (k, x) hm (ha.2 _ hm) (hb.2 (k, y) (Entries.mem_of_get? hy)) hxy)
    | _ => simp [equal, sameBy] at h

theorem keys_subset_of_alike {xs ys : Entries Json} (h : Alike (.obj xs) (.obj ys)) :
    Entries.keys xs ⊆ Entries.keys ys := by
  intro k hk
  by_contra hnot
  have hrel := alike_obj.mp h k
  rw [Entries.get?_eq_none_iff.mpr hnot, rel_none_right] at hrel
  exact Entries.get?_eq_none_iff.mp hrel hk

/-- Values that are alike are equal, where no key is repeated. -/
theorem equal_of_alike {a b : Json} (ha : Distinct a) (hb : Distinct b) (h : Alike a b) :
    equal a b = true := by
  induction a using parts_induction generalizing b with
  | scalar a ha' ho' =>
    have hleaf := (equalLeaf_iff ha' ho').mpr h.face_eq
    cases a <;> simp_all [equal, sameBy]
  | arr xs ih =>
    obtain ⟨ys, rfl, hxy⟩ := h.exists_arr
    simp only [equal, sameBy, sameListBy_iff]
    rw [distinct_arr] at ha hb
    obtain ⟨hl, hxy⟩ := List.forall₂_iff_get.mp hxy
    refine List.forall₂_iff_get.mpr ⟨hl, fun i hx hy => ?_⟩
    exact ih _ (List.getElem_mem hx) (ha _ (List.getElem_mem hx))
      (hb _ (List.getElem_mem hy)) (hxy i hx hy)
  | obj xs ih =>
    obtain ⟨ys, rfl, hxy⟩ := h.exists_obj
    rw [distinct_obj] at ha hb
    have hle := (List.subperm_of_subset ha.1 (keys_subset_of_alike h)).length_le
    have hge := (List.subperm_of_subset hb.1 (keys_subset_of_alike h.symm)).length_le
    simp only [equal, sameBy, Bool.and_eq_true, beq_iff_eq, sameEntriesBy_iff]
    refine ⟨by simpa [Entries.keys] using Nat.le_antisymm hle hge, fun p hp => ?_⟩
    have hrel := hxy p.1
    rw [Entries.get?_of_mem ha.1 hp, rel_some_left] at hrel
    obtain ⟨y, hy, hpy⟩ := hrel
    exact ⟨y, hy, ih p hp (ha.2 p hp) (hb.2 _ (Entries.mem_of_get? hy)) hpy⟩

/-! ## The order of keys does not count -/

theorem perm_insertByKey {α : Type} (p : String × α) (e : Entries α) :
    (insertByKey p e).Perm (p :: e) := by
  induction e with
  | nil => exact .refl _
  | cons q rest ih =>
    rw [insertByKey]
    split
    · exact .refl _
    · exact (ih.cons q).trans (.swap ..)

theorem perm_sortByKey {α : Type} (e : Entries α) : (sortByKey e).Perm e := by
  induction e with
  | nil => exact .refl _
  | cons p rest ih => exact (perm_insertByKey p _).trans (ih.cons p)

theorem get?_perm {α : Type} {e e' : Entries α} (h : e.Perm e') (hn : (Entries.keys e).Nodup)
    (k : String) : Entries.get? e k = Entries.get? e' k := by
  cases hx : Entries.get? e' k with
  | none =>
    refine Entries.get?_eq_none_iff.mpr fun hm => ?_
    exact Entries.get?_eq_none_iff.mp hx ((h.map Prod.fst).mem_iff.mp hm)
  | some x =>
    exact Entries.get?_of_mem hn (h.mem_iff.mpr (Entries.mem_of_get? hx))

theorem sortedEntries_eq (e : Entries Json) : sortedEntries e =
    e.map fun p => (p.1, sortedWithin (keepsOrder p.1) p.2) := by
  induction e with
  | nil => rfl
  | cons p rest ih => simp only [sortedEntries, ih, List.map_cons]

theorem sortedList_eq (kept : Bool) (items : List Json) :
    sortedList kept items = items.map (sortedWithin kept) := by
  induction items with
  | nil => rfl
  | cons j rest ih => simp only [sortedList, ih, List.map_cons]

theorem keys_sortedEntries (e : Entries Json) :
    Entries.keys (sortedEntries e) = Entries.keys e := by
  rw [sortedEntries_eq]
  simp [Entries.keys, Function.comp_def]

theorem get?_sortedEntries (e : Entries Json) (k : String) : Entries.get? (sortedEntries e) k =
    (Entries.get? e k).map (sortedWithin (keepsOrder k)) := by
  induction e with
  | nil => rfl
  | cons p rest ih =>
    rw [sortedEntries, Entries.get?, Entries.get?, ih]
    by_cases hp : p.1 = k
    · subst hp
      simp
    · simp [hp]

theorem get?_entries_sortedWithin (kept : Bool) {e : Entries Json} (hn : (Entries.keys e).Nodup)
    (k : String) : Entries.get? (sortedWithin kept (.obj e)).entries k =
      (Entries.get? e k).map (sortedWithin (keepsOrder k)) := by
  rw [← get?_sortedEntries, sortedWithin, entries_obj]
  split
  · rfl
  · refine get?_perm (perm_sortByKey _) ?_ k
    exact ((perm_sortByKey _).map Prod.fst).nodup_iff.mpr (by
      rw [← keys_sortedEntries e] at hn
      exact hn)

theorem alike_sortedWithin (kept : Bool) {j : Json} (h : Distinct j) :
    Alike (sortedWithin kept j) j := by
  induction j using parts_induction generalizing kept with
  | scalar j ha ho => cases j <;> simp_all [sortedWithin, Alike.refl]
  | arr items ih =>
    rw [distinct_arr] at h
    rw [sortedWithin, sortedList_eq, alike_arr, List.forall₂_map_left_iff]
    exact List.forall₂_same.mpr fun x hx => ih x hx kept (h x hx)
  | obj e ih =>
    rw [distinct_obj] at h
    have hobj : sortedWithin kept (.obj e) = .obj (sortedWithin kept (.obj e)).entries := by
      rw [sortedWithin]
      rfl
    rw [hobj, alike_obj]
    intro k
    rw [get?_entries_sortedWithin kept h.1]
    cases hx : Entries.get? e k with
    | none => exact .none
    | some x =>
      have hm := Entries.mem_of_get? hx
      exact .some (ih _ hm _ (h.2 _ hm))

theorem distinct_sortedWithin (kept : Bool) {j : Json} (h : Distinct j) :
    Distinct (sortedWithin kept j) := by
  induction j using parts_induction generalizing kept with
  | scalar j ha ho => cases j <;> simp_all [sortedWithin]
  | arr items ih =>
    rw [distinct_arr] at h
    rw [sortedWithin, sortedList_eq, distinct_arr]
    intro x hx
    obtain ⟨y, hy, rfl⟩ := List.mem_map.mp hx
    exact ih y hy kept (h y hy)
  | obj e ih =>
    rw [distinct_obj] at h
    have hall : ∀ p ∈ sortedEntries e, Distinct p.2 := by
      intro p hp
      rw [sortedEntries_eq] at hp
      obtain ⟨q, hq, rfl⟩ := List.mem_map.mp hp
      exact ih q hq _ (h.2 q hq)
    have hkeys : (Entries.keys (sortedEntries e)).Nodup := by
      rw [keys_sortedEntries]
      exact h.1
    rw [sortedWithin]
    split
    · exact distinct_obj.mpr ⟨hkeys, hall⟩
    · have hperm := perm_sortByKey (sortedEntries e)
      refine distinct_obj.mpr ⟨(hperm.map Prod.fst).nodup_iff.mpr hkeys, fun p hp => ?_⟩
      exact hall p (hperm.mem_iff.mp hp)

end Json
end Procedoc
