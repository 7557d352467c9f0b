import Procedoc.Proofs.Rendering.Resolving

/-! # Building data that cites

What is put together from data that cites only known names cites only known names, and other names
for what it cites change nothing in how it is put together: `Json.equal` tells values apart under
the one names as under the others (`equal_data`). -/
namespace Procedoc
set_option autoImplicit false

variable {known : String → Prop}

/-! ## Entries that cite -/

theorem citesOnly_nil : CitesOnly known (.obj []) := .obj .nil nofun nofun nofun

theorem selfContained_of_inert {j : Json} (h : Inert j) : SelfContained j :=
  fun _ hm => h.known_of_mentions hm

theorem citesOnly_cons {k : String} {v : Json} {e : Entries Json} (hk : k ∉ Entries.keys e)
    (hr : k ≠ "$ref") (hex : k = "examples" → ∀ items, v = .arr items → SelfContained v)
    (hv : CitesOnly known v) (he : CitesOnly known (.obj e)) :
    CitesOnly known (.obj ((k, v) :: e)) := by
  obtain ⟨hn, href, hcite, hexe⟩ := citesOnly_obj.mp he
  refine citesOnly_obj.mpr ⟨List.nodup_cons.mpr ⟨hk, hn⟩, fun w hw => ?_, fun p hp hpr => ?_,
    fun items hi => ?_⟩
  · rw [Entries.get?, if_neg hr] at hw
    exact href w hw
  · rcases List.mem_cons.mp hp with rfl | hp
    · exact hv
    · exact hcite p hp hpr
  · rw [Entries.get?] at hi
    split at hi
    · rename_i hk
      cases hi
      exact hex hk items rfl
    · exact hexe items hi

theorem citesOnly_entry {k : String} {v : Json} {e : Entries Json} (hk : k ∉ Entries.keys e)
    (hr : k ≠ "$ref") (hex : k ≠ "examples") (hv : CitesOnly known v)
    (he : CitesOnly known (.obj e)) : CitesOnly known (.obj ((k, v) :: e)) :=
  citesOnly_cons hk hr (fun h => absurd h hex) hv he

theorem citesOnly_filter {e : Entries Json} (h : CitesOnly known (.obj e))
    (p : String × Json → Bool) : CitesOnly known (.obj (e.filter p)) := by
  obtain ⟨hn, href, hcite, hex⟩ := citesOnly_obj.mp h
  have hnf : (Entries.keys (e.filter p)).Nodup := hn.sublist (List.filter_sublist.map _)
  have hget : ∀ k v, Entries.get? (e.filter p) k = some v → Entries.get? e k = some v :=
    fun k v hv => Entries.get?_of_mem hn (List.mem_filter.mp (Entries.mem_of_get? hv)).1
  exact citesOnly_obj.mpr ⟨hnf, fun v hv => href v (hget _ v hv),
    fun q hq => hcite q (List.mem_filter.mp hq).1, fun items hi => hex items (hget _ _ hi)⟩

theorem citesOnly_put {e : Entries Json} (h : CitesOnly known (.obj e)) {key : String} {v : Json}
    (hk : key ≠ "$ref") (hex : key = "examples" → ∀ items, v = .arr items → SelfContained v)
    (hv : CitesOnly known v) : CitesOnly known (.obj (Entries.put e key v)) := by
  obtain ⟨hn, href, hcite, hexe⟩ := citesOnly_obj.mp h
  refine citesOnly_obj.mpr ⟨Entries.nodup_keys_put hn key v, fun w hw => ?_, fun p hp hpr => ?_,
    fun items hi => ?_⟩
  · rw [Entries.get?_put, if_neg hk] at hw
    exact href w hw
  · rcases Entries.mem_of_mem_put hp with hp | rfl
    · exact hcite p hp hpr
    · exact hv
  · rw [Entries.get?_put] at hi
    split at hi
    · rename_i hkey
      cases hi
      exact hex hkey items rfl
    · exact hexe items hi

/-- Whether entries can be written over others without referring to anything. -/
def Overlay (e : Entries Json) : Prop := ∀ p ∈ e, p.1 ≠ "$ref" ∧ Inert p.2

theorem overlay_of_inert {e : Entries Json} (h : Inert (.obj e)) : Overlay e := by
  obtain ⟨hn, href, hcite, -⟩ := citesOnly_obj.mp h
  intro p hp
  have hk : p.1 ≠ "$ref" := by
    intro hk
    obtain ⟨name, hf, -⟩ := href p.2 (Entries.get?_of_mem hn (hk ▸ hp))
    exact hf
  exact ⟨hk, hcite p hp hk⟩

theorem citesOnly_override {e top : Entries Json} (h : CitesOnly known (.obj e))
    (ht : Overlay top) : CitesOnly known (.obj (Entries.override e top)) := by
  induction top generalizing e with
  | nil => exact h
  | cons p rest ih =>
    obtain ⟨hk, hq⟩ := ht p (List.mem_cons_self ..)
    exact ih (citesOnly_put h hk (fun _ _ _ => selfContained_of_inert hq) (.of_inert hq))
      fun q hq => ht q (List.mem_cons_of_mem _ hq)

theorem citesOnly_of_overlay {e : Entries Json} (h : Overlay e) (hn : (Entries.keys e).Nodup) :
    CitesOnly known (.obj e) := by
  induction e with
  | nil => exact citesOnly_nil
  | cons p rest ih =>
    obtain ⟨hk, hq⟩ := h p (List.mem_cons_self ..)
    have hnd := List.nodup_cons.mp hn
    exact citesOnly_cons hnd.1 hk (fun _ _ _ => selfContained_of_inert hq) (.of_inert hq)
      (ih (fun q hq => h q (List.mem_cons_of_mem _ hq)) hnd.2)

theorem citesOnly_leaf {j : Json} (ha : ∀ items, j ≠ .arr items) (ho : ∀ e, j ≠ .obj e)
    (hs : ∀ s, j ≠ .str s) : CitesOnly known j := .scalar ha ho fun s h => absurd h (hs s)

theorem citesOnly_bool (b : Bool) : CitesOnly known (.bool b) := citesOnly_leaf nofun nofun nofun

theorem citesOnly_int (n : Int) : CitesOnly known (.int n) := citesOnly_leaf nofun nofun nofun

/-! ## Other names -/

namespace Renaming
variable (n : Renaming)

theorem data_of_inert {j : Json} (h : Inert j) : n.data j = j := by
  induction h with
  | @scalar j ha ho hs =>
    cases j with
    | str s => rw [data, text_of_none n (hs s rfl).name]
    | arr items => exact absurd rfl (ha items)
    | obj e => exact absurd rfl (ho e)
    | _ => rfl
  | @arr items h ih =>
    rw [data, dataOfList_eq]
    exact congrArg Json.arr ((List.map_congr_left ih).trans (List.map_id' _))
  | @obj e hn hr hex h ih =>
    rw [data, dataOfEntries_eq, Entries.mapValues]
    refine congrArg Json.obj ((List.map_congr_left fun p hp => ?_).trans (List.map_id' _))
    have hk : p.1 ≠ "$ref" := (overlay_of_inert (.obj hn hr hex h) p hp).1
    rw [ih p hp hk]

end Renaming

theorem Renaming.mapValues_data_of_overlay (n : Renaming) {e : Entries Json} (h : Overlay e) :
    Entries.mapValues n.data e = e := by
  refine (List.map_congr_left fun p hp => ?_).trans (List.map_id' _)
  rw [n.data_of_inert (h p hp).2]

/-! ## Equal under other names -/

namespace Renaming
variable {n : Renaming}

/-- Whether data cites known names only, or is itself the text of such a reference. -/
def Cited (known : String → Prop) (j : Json) : Prop :=
  CitesOnly known j ∨ ∃ name, known name ∧ j = .str (definitionRef name)

theorem cited_of_mem {e : Entries Json} (h : CitesOnly known (.obj e)) {p : String × Json}
    (hp : p ∈ e) : Cited known p.2 := by
  obtain ⟨hn, href, hcite, -⟩ := citesOnly_obj.mp h
  by_cases hk : p.1 = "$ref"
  · exact .inr (href p.2 (Entries.get?_of_mem hn (hk ▸ hp)))
  · exact .inl (hcite p hp hk)

theorem text_inj (hinj : ∀ x y, known x → known y → n.apply x = n.apply y → x = y) {s t : String}
    (hs : Cited known (.str s)) (ht : Cited known (.str t)) : n.text s = n.text t ↔ s = t := by
  refine ⟨fun h => ?_, fun h => by rw [h]⟩
  rcases hs with hs | ⟨x, hx, hs⟩ <;> rcases ht with ht | ⟨y, hy, ht⟩
  · rwa [text_of_none n (citesOnly_str.mp hs).name, text_of_none n (citesOnly_str.mp ht).name] at h
  · cases ht
    rw [text_of_none n (citesOnly_str.mp hs).name, text_definitionRef] at h
    have := (citesOnly_str.mp hs).name
    rw [h, definitionName?_definitionRef] at this
    cases this
  · cases hs
    rw [text_of_none n (citesOnly_str.mp ht).name, text_definitionRef] at h
    have := (citesOnly_str.mp ht).name
    rw [← h, definitionName?_definitionRef] at this
    cases this
  · cases hs
    cases ht
    rw [text_definitionRef, text_definitionRef] at h
    rw [hinj x y hx hy (definitionRef_inj.mp h)]

/-- Values are equal under other names as they are under the names given, if no two names become
one. -/
theorem equal_data (hinj : ∀ x y, known x → known y → n.apply x = n.apply y → x = y) {a b : Json}
    (ha : Cited known a) (hb : Cited known b) : (n.data a).equal (n.data b) = a.equal b := by
  induction a using Json.parts_induction generalizing b with
  | scalar a hna hno =>
    cases a with
    | str s =>
      cases b with
      | str t =>
        have h := text_inj hinj ha hb
        by_cases hst : s = t
        · simp [Json.equal, Json.sameBy, data, Json.equalLeaf, Json.quantity?, hst]
        · simp [Json.equal, Json.sameBy, data, Json.equalLeaf, Json.quantity?, hst, h]
      | _ => simp [Json.equal, Json.sameBy, data, Json.equalLeaf, Json.quantity?]
    | arr items => exact absurd rfl (hna items)
    | obj e => exact absurd rfl (hno e)
    | _ => cases b <;> simp [Json.equal, Json.sameBy, data, Json.equalLeaf, Json.quantity?]
  | arr xs ih =>
    have hxs := citesOnly_arr.mp (ha.resolve_right (by rintro ⟨_, -, h⟩; cases h))
    cases b with
    | arr ys =>
      have hys := citesOnly_arr.mp (hb.resolve_right (by rintro ⟨_, -, h⟩; cases h))
      simp only [Json.equal, Json.sameBy, data, dataOfList_eq]
      exact Json.sameListBy_map fun x hx y hy => ih x hx (.inl (hxs x hx)) (.inl (hys y hy))
    | _ => simp [Json.equal, Json.sameBy, data]
  | obj xs ih =>
    have hxs := ha.resolve_right (by rintro ⟨_, -, h⟩; cases h)
    cases b with
    | obj ys =>
      have hys := hb.resolve_right (by rintro ⟨_, -, h⟩; cases h)
      simp only [Json.equal, Json.sameBy, data, dataOfEntries_eq]
      rw [Json.sameEntriesBy_mapValues fun p hp y hy =>
        ih p hp (cited_of_mem hxs hp) (cited_of_mem hys (Entries.mem_of_get? hy))]
      simp only [Entries.mapValues, List.length_map]
    | _ => simp [Json.equal, Json.sameBy, data]

theorem settleIn_data (hinj : ∀ x y, known x → known y → n.apply x = n.apply y → x = y)
    {items : List Json} {j : Json} (hi : ∀ x ∈ items, CitesOnly known x) (hj : CitesOnly known j) :
    Json.settleIn (items.map n.data) (n.data j) = (Json.settleIn items j).map n.data := by
  induction items with
  | nil => rfl
  | cons k rest ih =>
    rw [List.map_cons, Json.settleIn, Json.settleIn,
      equal_data hinj (.inl (hi k (List.mem_cons_self ..))) (.inl hj),
      ih fun x hx => hi x (List.mem_cons_of_mem _ hx)]
    split <;> rfl

theorem mem_of_mem_settleIn {items : List Json} {j x : Json} (h : x ∈ Json.settleIn items j) :
    x ∈ items ∨ x = j := by
  induction items with
  | nil => simpa [Json.settleIn] using h
  | cons k rest ih =>
    rw [Json.settleIn] at h
    split at h
    · rcases List.mem_cons.mp h with h | h
      · exact .inr h
      · exact .inl (List.mem_cons_of_mem _ h)
    · rcases List.mem_cons.mp h with h | h
      · exact .inl (h ▸ List.mem_cons_self ..)
      · exact (ih h).imp_left (List.mem_cons_of_mem _)

theorem mem_of_mem_distinct {items : List Json} {x : Json} (h : x ∈ Json.distinct items) :
    x ∈ items := by
  have hfold : ∀ (items kept : List Json), x ∈ items.foldl Json.settleIn kept →
      x ∈ kept ∨ x ∈ items := by
    intro items
    induction items with
    | nil => exact fun kept h => .inl h
    | cons j rest ih =>
      intro kept h
      rcases ih _ h with h | h
      · rcases mem_of_mem_settleIn h with h | h
        · exact .inl h
        · exact .inr (h ▸ List.mem_cons_self ..)
      · exact .inr (List.mem_cons_of_mem _ h)
  exact (hfold items [] h).resolve_left nofun

theorem distinct_data (hinj : ∀ x y, known x → known y → n.apply x = n.apply y → x = y)
    {items : List Json} (h : ∀ x ∈ items, CitesOnly known x) :
    Json.distinct (items.map n.data) = (Json.distinct items).map n.data := by
  have hfold : ∀ (items kept : List Json), (∀ x ∈ items, CitesOnly known x) →
      (∀ x ∈ kept, CitesOnly known x) →
      (items.map n.data).foldl Json.settleIn (kept.map n.data) =
        (items.foldl Json.settleIn kept).map n.data := by
    intro items
    induction items with
    | nil => exact fun _ _ _ => rfl
    | cons j rest ih =>
      intro kept hi hk
      have hj := hi j (List.mem_cons_self ..)
      rw [List.map_cons, List.foldl_cons, List.foldl_cons, settleIn_data hinj hk hj]
      refine ih _ (fun x hx => hi x (List.mem_cons_of_mem _ hx)) fun x hx => ?_
      rcases mem_of_mem_settleIn hx with hx | rfl
      · exact hk x hx
      · exact hj
  exact hfold items [] h nofun

end Renaming
end Procedoc
