import Procedoc.Fragment
import Procedoc.Proofs.Inlining.Unfolding
import Procedoc.Proofs.Likeness

/-! # References given their values

`Json.resolved env` is data in which each reference has become the value that `env` gives its name,
with what stands beside it on top.  It depends on the data only up to likeness (`alike_resolved`),
and other names for the definitions change nothing (`resolved_data`).  Where `env` solves the
definitions, the resolved data is what inlining leaves (`outcome_inlined_of_unfolds`). -/
namespace Procedoc
set_option autoImplicit false

/-! ## What data refers to -/

/-- Whether a text is not part of a reference. -/
structure Silent (s : String) : Prop where
  name : definitionName? s = none
  word : s ≠ "$ref"

/-- Whether all that a value refers to is known, and nothing else in it reads as a reference. -/
inductive CitesOnly (known : String → Prop) : Json → Prop where
  | scalar {j : Json} (ha : ∀ items, j ≠ .arr items) (ho : ∀ e, j ≠ .obj e)
      (hs : ∀ s, j = .str s → Silent s) : CitesOnly known j
  | arr {items : List Json} (h : ∀ x ∈ items, CitesOnly known x) : CitesOnly known (.arr items)
  | obj {e : Entries Json} (hn : (Entries.keys e).Nodup)
      (hr : ∀ v, Entries.get? e "$ref" = some v → ∃ name, known name ∧ v = .str (definitionRef name))
      (hex : ∀ items, Entries.get? e "examples" = some (.arr items) → SelfContained (.arr items))
      (h : ∀ p ∈ e, p.1 ≠ "$ref" → CitesOnly known p.2) : CitesOnly known (.obj e)

/-- Whether nothing in a value reads as a reference. -/
abbrev Inert (j : Json) : Prop := CitesOnly (fun _ => False) j

variable {known known' : String → Prop}

theorem citesOnly_arr {items : List Json} :
    CitesOnly known (.arr items) ↔ ∀ x ∈ items, CitesOnly known x := by
  constructor
  · intro h
    cases h with
    | scalar ha ho hs => exact absurd rfl (ha items)
    | arr h => exact h
  · exact .arr

theorem citesOnly_obj {e : Entries Json} : CitesOnly known (.obj e) ↔
    (Entries.keys e).Nodup ∧
    (∀ v, Entries.get? e "$ref" = some v → ∃ name, known name ∧ v = .str (definitionRef name)) ∧
    (∀ p ∈ e, p.1 ≠ "$ref" → CitesOnly known p.2) ∧
    ∀ items, Entries.get? e "examples" = some (.arr items) → SelfContained (.arr items) := by
  constructor
  · intro h
    cases h with
    | scalar ha ho hs => exact absurd rfl (ho e)
    | obj hn hr hex h => exact ⟨hn, hr, h, hex⟩
  · rintro ⟨hn, hr, h, hex⟩
    exact .obj hn hr hex h

theorem citesOnly_str {s : String} : CitesOnly known (.str s) ↔ Silent s := by
  constructor
  · intro h
    cases h with
    | scalar ha ho hs => exact hs s rfl
  · intro h
    exact .scalar nofun nofun fun t ht => by cases ht; exact h

theorem CitesOnly.mono {j : Json} (h : CitesOnly known j) (hk : ∀ name, known name → known' name) :
    CitesOnly known' j := by
  induction h with
  | scalar ha ho hs => exact .scalar ha ho hs
  | arr h ih => exact .arr ih
  | obj hn hr hex h ih =>
    refine .obj hn (fun v hv => ?_) hex ih
    obtain ⟨name, hname, rfl⟩ := hr v hv
    exact ⟨name, hk name hname, rfl⟩

theorem CitesOnly.of_inert {j : Json} (h : Inert j) : CitesOnly known j := h.mono fun _ => False.elim

theorem CitesOnly.distinct {j : Json} (h : CitesOnly known j) : Json.Distinct j := by
  induction h with
  | scalar ha ho hs => exact .scalar ha ho
  | arr h ih => exact .arr ih
  | obj hn hr hex h ih =>
    refine .obj hn fun p hp => ?_
    by_cases hk : p.1 = "$ref"
    · obtain ⟨name, hname, hv⟩ := hr p.2 (Entries.get?_of_mem hn (hk ▸ hp))
      rw [hv]
      exact .scalar nofun nofun
    · exact ih p hp hk

/-- In data that cites, an object is a reference or has no key that makes it look like one. -/
theorem refers_or_get?_eq_none {e : Entries Json} (h : CitesOnly known (.obj e)) :
    (∃ name, known name ∧ Refers e name) ∨ Entries.get? e "$ref" = none := by
  cases hr : Entries.get? e "$ref" with
  | none => exact .inr rfl
  | some v =>
    obtain ⟨name, hname, rfl⟩ := (citesOnly_obj.mp h).2.1 v hr
    exact .inl ⟨name, hname, hr⟩

theorem referenceOf?_of_refers {e : Entries Json} {name : String} (h : Refers e name) :
    referenceOf? e = some (definitionRef name, name) := referenceOf?_eq_some_iff.mpr ⟨h, rfl⟩

theorem referenceOf?_of_get?_eq_none {e : Entries Json} (h : Entries.get? e "$ref" = none) :
    referenceOf? e = none := by
  unfold referenceOf?
  rw [h]

/-! ## What is mentioned -/

theorem not_mentions_scalar {j : Json} {name : String} (ho : ∀ e, j ≠ .obj e)
    (ha : ∀ items, j ≠ .arr items) : ¬ Mentions j name := by
  rintro ⟨e, hp, -⟩
  cases hp with
  | self => exact ho e rfl
  | item => exact ha _ rfl
  | entry => exact ho _ rfl

theorem not_mentions_str {s name : String} : ¬ Mentions (.str s) name :=
  not_mentions_scalar (fun _ h => by cases h) fun _ h => by cases h

theorem CitesOnly.known_of_mentions {j : Json} {name : String} (h : CitesOnly known j)
    (hm : Mentions j name) : known name := by
  induction h with
  | scalar ha ho hs => exact absurd hm (not_mentions_scalar ho ha)
  | arr h ih =>
    obtain ⟨x, hx, hx'⟩ := mentions_arr.mp hm
    exact ih x hx hx'
  | @obj e hn hr hex h ih =>
    rcases mentions_obj.mp hm with href | ⟨p, hp, hp'⟩
    · obtain ⟨name', hk, hv⟩ := hr _ href
      have heq : Refers e name' := by rw [Refers, ← hv]; exact href
      exact href.unique heq ▸ hk
    · by_cases hkey : p.1 = "$ref"
      · obtain ⟨name', -, hv⟩ := hr p.2 (Entries.get?_of_mem hn (hkey ▸ hp))
        rw [hv] at hp'
        exact absurd hp' not_mentions_str
      · exact ih p hp hkey hp'

theorem CitesOnly.and_mentions {j : Json} (h : CitesOnly known j) :
    CitesOnly (fun name => known name ∧ Mentions j name) j := by
  induction h with
  | scalar ha ho hs => exact .scalar ha ho hs
  | arr h ih =>
    refine .arr fun x hx => (ih x hx).mono fun name hk => ⟨hk.1, ?_⟩
    exact mentions_arr.mpr ⟨x, hx, hk.2⟩
  | obj hn hr hex h ih =>
    refine .obj hn (fun v hv => ?_) hex fun p hp hk => (ih p hp hk).mono fun name hm => ⟨hm.1, ?_⟩
    · obtain ⟨name, hname, rfl⟩ := hr v hv
      exact ⟨name, ⟨hname, mentions_obj.mpr (.inl hv)⟩, rfl⟩
    · exact mentions_obj.mpr (.inr ⟨p, hp, hm.2⟩)

theorem refers_of_alike {xs ys : Entries Json} (hy : CitesOnly known (.obj ys))
    (h : ∀ k, Option.Rel Json.Alike (Entries.get? xs k) (Entries.get? ys k)) {name : String}
    (href : Refers xs name) : Refers ys name := by
  have hk := h "$ref"
  rw [href, rel_some_left] at hk
  obtain ⟨y, hget, halike⟩ := hk
  obtain ⟨name', -, rfl⟩ := (citesOnly_obj.mp hy).2.1 y hget
  have hf := halike.face_eq
  simp only [Json.face, Json.Face.text.injEq] at hf
  rw [Refers, hget, hf]

theorem mentions_of_alike {a b : Json} (ha : CitesOnly known a) (hb : CitesOnly known' b)
    (h : Json.Alike a b) {name : String} (hm : Mentions a name) : Mentions b name := by
  induction ha generalizing b with
  | scalar ha ho hs => exact absurd hm (not_mentions_scalar ho ha)
  | @arr xs hx ih =>
    obtain ⟨x, hmem, hx'⟩ := mentions_arr.mp hm
    obtain ⟨ys, rfl, hxy⟩ := h.exists_arr
    obtain ⟨hl, hxy⟩ := List.forall₂_iff_get.mp hxy
    obtain ⟨i, hi, rfl⟩ := List.mem_iff_getElem.mp hmem
    have hi' : i < ys.length := hl ▸ hi
    rw [citesOnly_arr] at hb
    exact mentions_arr.mpr ⟨ys[i], List.getElem_mem hi',
      ih _ hmem (hb _ (List.getElem_mem hi')) (hxy i hi hi') hx'⟩
  | @obj xs hn hr hex hx ih =>
    obtain ⟨ys, rfl, hxy⟩ := h.exists_obj
    rcases mentions_obj.mp hm with href | ⟨p, hp, hp'⟩
    · exact mentions_obj.mpr (.inl (refers_of_alike hb hxy href))
    · have hget := Entries.get?_of_mem hn hp
      by_cases hkey : p.1 = "$ref"
      · obtain ⟨name', -, hv⟩ := hr p.2 (hkey ▸ hget)
        rw [hv] at hp'
        exact absurd hp' not_mentions_str
      · have hk := hxy p.1
        rw [hget, rel_some_left] at hk
        obtain ⟨y, hy, hpy⟩ := hk
        have hmy := Entries.mem_of_get? hy
        have hcy := (citesOnly_obj.mp hb).2.2.1 (p.1, y) hmy hkey
        exact mentions_obj.mpr (.inr ⟨(p.1, y), hmy, ih p hp hkey hcy hpy hp'⟩)

/-! ## Data with values for references -/

mutual
/-- The value with the values of names in the place of references to them. -/
def Json.resolved (env : String → Json) : Json → Json
  | .obj e =>
    match referenceOf? e with
    | none => .obj (resolvedEntries env e)
    | some (_, name) =>
      (env name).override (.obj (Entries.without (resolvedEntries env e) "$ref"))
  | .arr items => .arr (resolvedList env items)
  | j => j

def Json.resolvedList (env : String → Json) : List Json → List Json
  | [] => []
  | j :: rest => Json.resolved env j :: resolvedList env rest

def Json.resolvedEntries (env : String → Json) : List (String × Json) → List (String × Json)
  | [] => []
  | (key, j) :: rest => (key, Json.resolved env j) :: resolvedEntries env rest
end

namespace Json
variable {env env' : String → Json}

theorem resolvedList_eq (items : List Json) :
    resolvedList env items = items.map (resolved env) := by
  induction items with
  | nil => rfl
  | cons j rest ih => rw [resolvedList, ih, List.map_cons]

theorem resolvedEntries_eq (e : List (String × Json)) :
    resolvedEntries env e = Entries.mapValues (resolved env) e := by
  induction e with
  | nil => rfl
  | cons p rest ih => rw [resolvedEntries, ih]; rfl

theorem resolved_scalar {j : Json} (ha : ∀ items, j ≠ .arr items) (ho : ∀ e, j ≠ .obj e) :
    resolved env j = j := by
  cases j with
  | arr items => exact absurd rfl (ha items)
  | obj e => exact absurd rfl (ho e)
  | _ => rfl

theorem resolved_arr (items : List Json) :
    resolved env (.arr items) = .arr (items.map (resolved env)) := by
  rw [resolved, resolvedList_eq]

theorem resolved_plain {e : Entries Json} (h : Entries.get? e "$ref" = none) :
    resolved env (.obj e) = .obj (Entries.mapValues (resolved env) e) := by
  rw [resolved, referenceOf?_of_get?_eq_none h, resolvedEntries_eq]

theorem resolved_refers {e : Entries Json} {name : String} (h : Refers e name) :
    resolved env (.obj e) = (env name).override
      (.obj (Entries.without (Entries.mapValues (resolved env) e) "$ref")) := by
  rw [resolved, referenceOf?_of_refers h, resolvedEntries_eq]

theorem resolved_of_inert {j : Json} (h : Inert j) : resolved env j = j := by
  induction h with
  | scalar ha ho hs => exact resolved_scalar ha ho
  | @arr items h ih =>
    rw [resolved_arr, List.map_congr_left ih, List.map_id']
  | @obj e hn hr hex h ih =>
    have hnone : Entries.get? e "$ref" = none := by
      cases hv : Entries.get? e "$ref" with
      | none => rfl
      | some v =>
        obtain ⟨name, hf, -⟩ := hr v hv
        exact hf.elim
    have hsame : Entries.mapValues (resolved env) e = e := by
      have hall : ∀ p ∈ e, (p.1, resolved env p.2) = p := fun p hp => by
        have hk : p.1 ≠ "$ref" := fun hk =>
          Entries.get?_eq_none_iff.mp hnone (hk ▸ Entries.mem_keys_of_mem hp)
        rw [ih p hp hk]
      rw [Entries.mapValues, List.map_congr_left hall, List.map_id']
    rw [resolved_plain hnone, hsame]

/-! ## Likeness -/

theorem Alike.isObject_eq {a b : Json} (h : Alike a b) : a.isObject = b.isObject := by
  have hf := h.face_eq
  cases a <;> cases b <;> simp_all [face, isObject]

theorem alike_entries {a b : Json} (h : Alike a b) (k : String) :
    Option.Rel Alike (Entries.get? a.entries k) (Entries.get? b.entries k) := by
  have hobj := h.isObject_eq
  cases a with
  | obj xs =>
    cases b with
    | obj ys => exact alike_obj.mp h k
    | _ => cases hobj
  | _ =>
    cases b with
    | obj ys => cases hobj
    | _ => exact .none

theorem alike_override {a b : Json} {xs ys : Entries Json} (h : Alike a b)
    (hx : (Entries.keys xs).Nodup) (hy : (Entries.keys ys).Nodup)
    (hxy : ∀ k, Option.Rel Alike (Entries.get? xs k) (Entries.get? ys k)) :
    Alike (a.override (.obj xs)) (b.override (.obj ys)) := by
  rw [override, override, alike_obj]
  intro k
  rw [entries_obj, entries_obj, Entries.get?_override _ hx, Entries.get?_override _ hy]
  exact rel_or (hxy k) (alike_entries h k)

theorem keys_siblings (f : Json → Json) {e : Entries Json} (h : (Entries.keys e).Nodup) :
    (Entries.keys (Entries.without (Entries.mapValues f e) "$ref")).Nodup := by
  refine Entries.nodup_keys_without ?_ _
  rw [Entries.keys_mapValues]
  exact h

theorem alike_resolved {a b : Json} (ha : CitesOnly known a) (hb : CitesOnly known b)
    (h : Alike a b) (henv : ∀ name, known name → Alike (env name) (env' name)) :
    Alike (resolved env a) (resolved env' b) := by
  induction ha generalizing b with
  | @scalar a ha ho hs =>
    obtain ⟨ha', ho'⟩ := h.isScalar ha ho
    rw [resolved_scalar ha ho, resolved_scalar ha' ho']
    exact h
  | @arr xs hx ih =>
    obtain ⟨ys, rfl, hxy⟩ := h.exists_arr
    rw [citesOnly_arr] at hb
    rw [resolved_arr, resolved_arr, alike_arr, List.forall₂_map_left_iff,
      List.forall₂_map_right_iff]
    obtain ⟨hl, hxy⟩ := List.forall₂_iff_get.mp hxy
    refine List.forall₂_iff_get.mpr ⟨hl, fun i hx hy => ?_⟩
    exact ih _ (List.getElem_mem hx) (hb _ (List.getElem_mem hy)) (hxy i hx hy)
  | @obj xs hn hr hex hx ih =>
    obtain ⟨ys, rfl, hxy⟩ := h.exists_obj
    obtain ⟨hn', -, hy, -⟩ := citesOnly_obj.mp hb
    have hinner (k : String) (hk : k ≠ "$ref") : Option.Rel Alike
        (Entries.get? (Entries.mapValues (resolved env) xs) k)
        (Entries.get? (Entries.mapValues (resolved env') ys) k) := by
      rw [Entries.get?_mapValues, Entries.get?_mapValues]
      exact rel_map (hxy k) fun x y hx' hy' =>
        ih (k, x) (Entries.mem_of_get? hx') hk (hy (k, y) (Entries.mem_of_get? hy') hk)
    rcases refers_or_get?_eq_none (.obj hn hr hex hx) with ⟨name, hname, href⟩ | hnone
    · rw [resolved_refers href, resolved_refers (refers_of_alike hb hxy href)]
      refine alike_override (henv name hname) (keys_siblings _ hn) (keys_siblings _ hn') fun k => ?_
      rw [Entries.get?_without, Entries.get?_without]
      split
      · exact .none
      · exact hinner k ‹_›
    · have hnone' : Entries.get? ys "$ref" = none := rel_none_left.mp (hnone ▸ hxy "$ref")
      rw [resolved_plain hnone, resolved_plain hnone', alike_obj]
      intro k
      by_cases hk : k = "$ref"
      · rw [hk, Entries.get?_mapValues, Entries.get?_mapValues, hnone, hnone']
        exact .none
      · exact hinner k hk

end Json

/-! ## Other names for definitions -/

namespace Renaming
variable (n : Renaming)

theorem dataOfList_eq (items : List Json) : n.dataOfList items = items.map n.data := by
  induction items with
  | nil => rfl
  | cons j rest ih => rw [dataOfList, ih, List.map_cons]

theorem dataOfEntries_eq (e : List (String × Json)) :
    n.dataOfEntries e = Entries.mapValues n.data e := by
  induction e with
  | nil => rfl
  | cons p rest ih => rw [dataOfEntries, ih]; rfl

theorem text_definitionRef (name : String) :
    n.text (definitionRef name) = definitionRef (n.apply name) := by
  rw [text, definitionName?_definitionRef, Option.bind_some, apply]
  cases Entries.get? n name <;> rfl

theorem text_of_none {s : String} (h : definitionName? s = none) : n.text s = s := by
  rw [text, h, Option.bind_none]

theorem refers_data {e : Entries Json} {name : String} (h : Refers e name) :
    Refers (n.dataOfEntries e) (n.apply name) := by
  rw [Refers, dataOfEntries_eq, Entries.get?_mapValues, h, Option.map_some, data,
    text_definitionRef]

theorem get?_dataOfEntries (e : Entries Json) (k : String) :
    Entries.get? (n.dataOfEntries e) k = (Entries.get? e k).map n.data := by
  rw [dataOfEntries_eq, Entries.get?_mapValues]

theorem mentions_data {j : Json} (h : CitesOnly known j) {name : String} :
    Mentions (n.data j) name ↔ ∃ label, Mentions j label ∧ n.apply label = name := by
  induction h with
  | @scalar j ha ho hs =>
    have hj : ∀ name, ¬ Mentions j name := fun name => not_mentions_scalar ho ha
    have hd : ¬ Mentions (n.data j) name := by
      cases j with
      | obj e => exact absurd rfl (ho e)
      | arr items => exact absurd rfl (ha items)
      | _ => exact not_mentions_scalar nofun nofun
    simp [hj, hd]
  | @arr items h ih =>
    rw [data, dataOfList_eq]
    simp only [mentions_arr, List.mem_map]
    constructor
    · rintro ⟨-, ⟨x, hx, rfl⟩, hm⟩
      obtain ⟨label, hl, hname⟩ := (ih x hx).mp hm
      exact ⟨label, ⟨x, hx, hl⟩, hname⟩
    · rintro ⟨label, ⟨x, hx, hl⟩, hname⟩
      exact ⟨n.data x, ⟨x, hx, rfl⟩, (ih x hx).mpr ⟨label, hl, hname⟩⟩
  | @obj e hn hr hex h ih =>
    rw [data]
    have hscalar : ∀ p ∈ e, p.1 = "$ref" → ∀ name, ¬ Mentions p.2 name ∧
        ¬ Mentions (n.data p.2) name := by
      intro p hp hk name
      obtain ⟨label, -, hv⟩ := hr p.2 (Entries.get?_of_mem hn (hk ▸ hp))
      rw [hv]
      exact ⟨not_mentions_scalar nofun nofun, not_mentions_scalar nofun nofun⟩
    simp only [mentions_obj]
    constructor
    · rintro (href | ⟨q, hq, hm⟩)
      · rw [Refers, get?_dataOfEntries] at href
        obtain ⟨v, hv, hd⟩ := Option.map_eq_some_iff.mp href
        obtain ⟨label, -, rfl⟩ := hr v hv
        rw [data, text_definitionRef, Json.str.injEq] at hd
        exact ⟨label, .inl hv, definitionRef_inj.mp hd⟩
      · rw [dataOfEntries_eq] at hq
        obtain ⟨p, hp, rfl⟩ := List.mem_map.mp hq
        by_cases hk : p.1 = "$ref"
        · exact absurd hm (hscalar p hp hk name).2
        · obtain ⟨label, hl, hname⟩ := (ih p hp hk).mp hm
          exact ⟨label, .inr ⟨p, hp, hl⟩, hname⟩
    · rintro ⟨label, href | ⟨p, hp, hl⟩, rfl⟩
      · exact .inl (n.refers_data href)
      · by_cases hk : p.1 = "$ref"
        · exact absurd hl (hscalar p hp hk label).1
        · refine .inr ⟨(p.1, n.data p.2), ?_, (ih p hp hk).mpr ⟨label, hl, rfl⟩⟩
          rw [dataOfEntries_eq]
          exact List.mem_map.mpr ⟨p, hp, rfl⟩

theorem citesOnly_data {j : Json} (h : CitesOnly known j)
    (hk : ∀ name, known name → known' (n.apply name)) : CitesOnly known' (n.data j) := by
  induction h with
  | @scalar j ha ho hs =>
    cases j with
    | str s =>
      rw [data, text_of_none n (hs s rfl).name]
      exact .scalar nofun nofun hs
    | arr items => exact absurd rfl (ha items)
    | obj e => exact absurd rfl (ho e)
    | _ => exact .scalar nofun nofun nofun
  | @arr items h ih =>
    rw [data, dataOfList_eq, citesOnly_arr]
    intro x hx
    obtain ⟨y, hy, rfl⟩ := List.mem_map.mp hx
    exact ih y hy
  | @obj e hn hr hex h ih =>
    rw [data]
    refine .obj ?_ (fun v hv => ?_) (fun items hi => ?_) fun p hp hk => ?_
    · rw [dataOfEntries_eq, Entries.keys_mapValues]
      exact hn
    · rw [get?_dataOfEntries] at hv
      obtain ⟨w, hw, rfl⟩ := Option.map_eq_some_iff.mp hv
      obtain ⟨name, hname, rfl⟩ := hr w hw
      exact ⟨n.apply name, hk name hname, by rw [data, text_definitionRef]⟩
    · rw [get?_dataOfEntries] at hi
      obtain ⟨v, hv, hd⟩ := Option.map_eq_some_iff.mp hi
      have hcite : CitesOnly known v := h ("examples", v) (Entries.mem_of_get? hv) (by simp)
      rw [← hd]
      intro name hm
      obtain ⟨label, hl, -⟩ := (mentions_data n hcite).mp hm
      cases v with
      | arr xs => exact hex xs hv label hl
      | str s => exact absurd hl not_mentions_str
      | obj e' => cases hd
      | _ => exact absurd hl (not_mentions_scalar nofun nofun)
    · rw [dataOfEntries_eq] at hp
      obtain ⟨q, hq, rfl⟩ := List.mem_map.mp hp
      exact ih q hq hk

theorem resolved_data {env : String → Json} {j : Json} (h : CitesOnly known j) :
    Json.resolved env (n.data j) = Json.resolved (fun name => env (n.apply name)) j := by
  induction h with
  | @scalar j ha ho hs =>
    cases j with
    | str s => rw [data, text_of_none n (hs s rfl).name]; rfl
    | arr items => exact absurd rfl (ha items)
    | obj e => exact absurd rfl (ho e)
    | _ => rfl
  | @arr items h ih =>
    rw [data, dataOfList_eq, Json.resolved_arr, Json.resolved_arr, List.map_map]
    exact congrArg Json.arr (List.map_congr_left ih)
  | @obj e hn hr hex h ih =>
    have hinner : Entries.without (Entries.mapValues (Json.resolved env) (n.dataOfEntries e)) "$ref" =
        Entries.without
          (Entries.mapValues (Json.resolved fun name => env (n.apply name)) e) "$ref" := by
      rw [dataOfEntries_eq]
      simp only [Entries.mapValues, Entries.without, List.map_map, List.filter_map]
      refine List.map_congr_left fun p hp => ?_
      have hp' := List.mem_filter.mp hp
      have hk : p.1 ≠ "$ref" := by simpa using hp'.2
      simp only [Function.comp_apply, ih p hp'.1 hk]
    rcases refers_or_get?_eq_none (.obj hn hr hex h) with ⟨name, hname, href⟩ | hnone
    · rw [data, Json.resolved_refers (n.refers_data href), Json.resolved_refers href, hinner]
    · have hnone' : Entries.get? (n.dataOfEntries e) "$ref" = none := by
        rw [get?_dataOfEntries, hnone, Option.map_none]
      rw [data, Json.resolved_plain hnone', Json.resolved_plain hnone]
      have hw (e' : Entries Json) (he' : Entries.get? e' "$ref" = none) :
          Entries.without e' "$ref" = e' :=
        Entries.without_of_notMem (Entries.get?_eq_none_iff.mp he')
      rw [hw, hw] at hinner
      · rw [hinner]
      · rw [Entries.get?_mapValues, hnone, Option.map_none]
      · rw [Entries.get?_mapValues, hnone', Option.map_none]

end Renaming

/-! ## Values that solve definitions -/

/-- Whether the value of each defined name is its definition, with values for references. -/
def Solves (definitions : Entries Json) (env : String → Json) : Prop :=
  ∀ name d, Entries.get? definitions name = some d → env name = Json.resolved env d

/-- Definitions that are objects and cite only others of lower rank. -/
structure Ranked (definitions : Entries Json) (rank : String → Nat) : Prop where
  isObject : ∀ name d, Entries.get? definitions name = some d → d.isObject = true
  cites : ∀ name d, Entries.get? definitions name = some d →
    CitesOnly (fun name' => (Entries.get? definitions name').isSome ∧ rank name' < rank name) d

theorem Json.resolved_congr {env env' : String → Json} {j : Json} (h : CitesOnly known j)
    (henv : ∀ name, known name → env name = env' name) :
    Json.resolved env j = Json.resolved env' j := by
  induction h with
  | scalar ha ho hs => rw [Json.resolved_scalar ha ho, Json.resolved_scalar ha ho]
  | @arr items h ih => rw [Json.resolved_arr, Json.resolved_arr, List.map_congr_left ih]
  | @obj e hn hr hex h ih =>
    rcases refers_or_get?_eq_none (.obj hn hr hex h) with ⟨name, hname, href⟩ | hnone
    · rw [Json.resolved_refers href, Json.resolved_refers href, henv name hname]
      congr 2
      simp only [Entries.mapValues, Entries.without, List.filter_map]
      refine List.map_congr_left fun p hp => ?_
      have hp' := List.mem_filter.mp hp
      have hk : p.1 ≠ "$ref" := by simpa using hp'.2
      rw [ih p hp'.1 hk]
    · rw [Json.resolved_plain hnone, Json.resolved_plain hnone]
      congr 1
      refine List.map_congr_left fun p hp => ?_
      have hk : p.1 ≠ "$ref" := fun hk =>
        Entries.get?_eq_none_iff.mp hnone (hk ▸ Entries.mem_keys_of_mem hp)
      rw [ih p hp hk]

theorem Json.distinct_resolved {env : String → Json} {j : Json} (h : CitesOnly known j)
    (henv : ∀ name, known name → Json.Distinct (env name)) :
    Json.Distinct (Json.resolved env j) := by
  induction h with
  | scalar ha ho hs =>
    rw [Json.resolved_scalar ha ho]
    exact .scalar ha ho
  | @arr items h ih =>
    rw [Json.resolved_arr, Json.distinct_arr]
    simpa using ih
  | @obj e hn hr hex h ih =>
    have hvalues : ∀ p ∈ Entries.mapValues (Json.resolved env) e, p.1 ≠ "$ref" →
        Json.Distinct p.2 := by
      intro p hp hk
      obtain ⟨q, hq, rfl⟩ := List.mem_map.mp hp
      exact ih q hq hk
    have hkeys : (Entries.keys (Entries.mapValues (Json.resolved env) e)).Nodup := by
      rwa [Entries.keys_mapValues]
    rcases refers_or_get?_eq_none (.obj hn hr hex h) with ⟨name, hname, href⟩ | hnone
    · rw [Json.resolved_refers href]
      refine Json.distinct_override (henv name hname) fun p hp => ?_
      have hp' := List.mem_filter.mp hp
      exact hvalues p hp'.1 (by simpa using hp'.2)
    · rw [Json.resolved_plain hnone, Json.distinct_obj]
      refine ⟨hkeys, fun p hp => hvalues p hp fun hk => ?_⟩
      refine Entries.get?_eq_none_iff.mp hnone ?_
      rw [← Entries.keys_mapValues (Json.resolved env) e]
      exact hk ▸ Entries.mem_keys_of_mem hp

/-- The values of definitions as far as they can be found in so many steps. -/
def valuesWithin (definitions : Entries Json) : Nat → String → Json
  | 0, _ => .null
  | steps + 1, name =>
    match Entries.get? definitions name with
    | some d => Json.resolved (valuesWithin definitions steps) d
    | none => .null

variable {definitions : Entries Json} {rank : String → Nat}

theorem valuesWithin_eq (hd : Ranked definitions rank) {m k : Nat} {name : String}
    (hm : rank name < m) (hk : rank name < k) :
    valuesWithin definitions m name = valuesWithin definitions k name := by
  induction m generalizing k name with
  | zero => omega
  | succ m ih =>
    obtain ⟨k, rfl⟩ : ∃ k', k = k' + 1 := ⟨k - 1, by omega⟩
    rw [valuesWithin, valuesWithin]
    cases hx : Entries.get? definitions name with
    | none => rfl
    | some d =>
      refine Json.resolved_congr (hd.cites name d hx) fun name' hname' => ?_
      exact ih (by omega) (by omega)

theorem exists_solves (hd : Ranked definitions rank) : ∃ env, Solves definitions env := by
  refine ⟨fun name => valuesWithin definitions (rank name + 1) name, fun name d hx => ?_⟩
  dsimp only
  rw [valuesWithin, hx]
  refine Json.resolved_congr (hd.cites name d hx) fun name' hname' => ?_
  exact valuesWithin_eq hd hname'.2 (by omega)

theorem Solves.distinct {env : String → Json} (hs : Solves definitions env)
    (hd : Ranked definitions rank) (n : Nat) {name : String} (hn : rank name < n)
    (h : (Entries.get? definitions name).isSome) : Json.Distinct (env name) := by
  induction n generalizing name with
  | zero => exact absurd hn (Nat.not_lt_zero _)
  | succ n ih =>
    obtain ⟨d, hx⟩ := Option.isSome_iff_exists.mp h
    rw [hs name d hx]
    exact Json.distinct_resolved (hd.cites name d hx) fun next hnext =>
      ih (Nat.lt_of_lt_of_le hnext.2 (Nat.le_of_lt_succ hn)) hnext.1

/-- Data that cites defined names unfolds to its resolved form. -/
theorem unfolds_resolved {env : String → Json} (hd : Ranked definitions rank)
    (hs : Solves definitions env) (n : Nat) {j : Json}
    (h : CitesOnly (fun name => (Entries.get? definitions name).isSome ∧ rank name < n) j) :
    Unfolds definitions j (Json.resolved env j) := by
  induction n generalizing j with
  | zero =>
    have hq : Inert j := h.mono fun _ hk => absurd hk.2 (Nat.not_lt_zero _)
    rw [Json.resolved_of_inert hq]
    induction hq with
    | scalar ha ho hsc => exact .scalar ha ho
    | @arr items hx ih =>
      have hall := UnfoldsList.of_map (f := fun x => x) fun x hm =>
        ih x hm ((citesOnly_arr.mp h) x hm)
      rw [List.map_id'] at hall
      exact .arr hall
    | @obj e hn hr hex hx ih =>
      have hno : ∀ name, ¬ Refers e name := fun name href => by
        obtain ⟨-, hf, -⟩ := hr _ href
        exact hf
      have hne : ∀ p ∈ e, p.1 ≠ "$ref" := fun p hp hk => by
        obtain ⟨-, hf, -⟩ := hr p.2 (Entries.get?_of_mem hn (hk ▸ hp))
        exact hf
      have hall := UnfoldsEntries.of_mapValues (f := fun x => x) fun p hp =>
        ih p hp (hne p hp) ((citesOnly_obj.mp h).2.2.1 p hp (hne p hp))
      have hsame : Entries.mapValues (fun x => x) e = e := List.map_id' e
      rw [hsame] at hall
      exact .obj hno hall
  | succ n ihn =>
    induction h with
    | scalar ha ho hsc =>
      rw [Json.resolved_scalar ha ho]
      exact .scalar ha ho
    | @arr items hx ih =>
      rw [Json.resolved_arr]
      exact .arr (.of_map ih)
    | @obj e hn hr hex hx ih =>
      have hinner : ∀ p ∈ e, Unfolds definitions p.2 (Json.resolved env p.2) := fun p hp => by
        by_cases hk : p.1 = "$ref"
        · obtain ⟨name, -, hv⟩ := hr p.2 (Entries.get?_of_mem hn (hk ▸ hp))
          rw [hv]
          exact .scalar nofun nofun
        · exact ih p hp hk
      rcases refers_or_get?_eq_none (.obj hn hr hex hx) with ⟨name, hname, href⟩ | hnone
      · obtain ⟨d, hdef⟩ := Option.isSome_iff_exists.mp hname.1
        rw [Json.resolved_refers href, hs name d hdef]
        refine .reference href hdef (.of_mapValues hinner) (ihn ?_)
        refine (hd.cites name d hdef).mono fun name' hname' => ⟨hname'.1, ?_⟩
        omega
      · rw [Json.resolved_plain hnone]
        refine .obj (fun name href => ?_) (.of_mapValues hinner)
        rw [Refers, hnone] at href
        cases href

theorem outcome_inlined_of_unfolds {schema : Entries Json} {v : Json}
    (h : Brings schema definitions)
    (hv : Unfolds definitions (.obj (Entries.without schema "$defs")) v) :
    (inlined schema).outcome = .ok v := by
  have hm := mishaps_of_settled h.areObjects [] _ hv.settled (by simp)
  have hv' := unfolds_expand [] _ hm
  rw [inlined_of_brings h, hv.unique hv']

end Procedoc
