/-! # Keyed lists

`Entries α` is a list of keyed values whose order is part of its meaning: the fields of an object,
the properties of a schema, the variables of an environment.

* `put` writes one key: a key already present keeps its place and gets the new value, a new key
  goes last.
* `override base top` writes every entry of `top` into `base`, in order.
* `ofList` is the keyed list that writing a list of pairs one after another leaves.
-/

namespace Procedoc
set_option autoImplicit false

/-- Values under keys, in order. -/
abbrev Entries (α : Type) := List (String × α)

namespace Entries
variable {α β : Type}

def keys (e : Entries α) : List String := e.map Prod.fst

/-- The value under a key, the first one if the list repeats it. -/
def get? : Entries α → String → Option α
  | [], _ => none
  | (k, v) :: rest, key => if k = key then some v else get? rest key

/-- Whether some value stands under the key. -/
def has (e : Entries α) (key : String) : Bool := (get? e key).isSome

def put : Entries α → String → α → Entries α
  | [], key, value => [(key, value)]
  | (k, v) :: rest, key, value =>
    if k = key then (k, value) :: rest else (k, v) :: put rest key value

attribute [grind =] get? put

/-- Writes every entry of the second list into the first. -/
def override (base : Entries α) : Entries α → Entries α
  | [] => base
  | (k, v) :: rest => override (put base k v) rest

/-- The keyed list that a list of pairs writes, later pairs over earlier ones. -/
def ofList (pairs : List (String × α)) : Entries α := override [] pairs

/-- All entries but those under the key. -/
def without (e : Entries α) (key : String) : Entries α := e.filter fun p => p.1 != key

def withoutAll (e : Entries α) (names : List String) : Entries α :=
  e.filter fun p => !names.contains p.1

def mapValues (f : α → β) (e : Entries α) : Entries β := e.map fun p => (p.1, f p.2)

/-! ## First facts -/

@[simp] theorem get?_nil (key : String) : get? ([] : Entries α) key = none := rfl

@[simp] theorem override_nil (base : Entries α) : override base [] = base := rfl

theorem override_append (base : Entries α) (xs ys : Entries α) :
    override base (xs ++ ys) = override (override base xs) ys := by
  induction xs generalizing base with
  | nil => rfl
  | cons p rest ih => exact ih (put base p.1 p.2)

theorem get?_put (e : Entries α) (key key' : String) (value : α) :
    get? (put e key value) key' = if key = key' then some value else get? e key' := by
  induction e with
  | nil => rfl
  | cons p rest ih =>
    by_cases h : p.1 = key <;> by_cases h' : p.1 = key' <;> grind [get?, put]

theorem keys_put (e : Entries α) (key : String) (value : α) :
    keys (put e key value) = if key ∈ keys e then keys e else keys e ++ [key] := by
  induction e with
  | nil => rfl
  | cons p rest ih => by_cases h : p.1 = key <;> grind [keys, put]

theorem put_of_notMem {e : Entries α} {key : String} (h : key ∉ keys e) (value : α) :
    put e key value = e ++ [(key, value)] := by
  induction e with
  | nil => rfl
  | cons p rest ih => grind [keys, put]

theorem mem_of_mem_put {e : Entries α} {key : String} {value : α} {p : String × α}
    (h : p ∈ put e key value) : p ∈ e ∨ p = (key, value) := by
  induction e with
  | nil => simpa [put] using h
  | cons q rest ih => by_cases hq : q.1 = key <;> grind [put]

theorem mem_of_mem_override {base top : Entries α} {p : String × α}
    (h : p ∈ override base top) : p ∈ base ∨ p ∈ top := by
  induction top generalizing base with
  | nil => exact .inl h
  | cons q rest ih =>
    rcases ih h with hb | hr
    · rcases mem_of_mem_put hb with hb | rfl
      · exact .inl hb
      · exact .inr (List.mem_cons_self ..)
    · exact .inr (List.mem_cons_of_mem _ hr)

theorem get?_eq_none_iff {e : Entries α} {key : String} : get? e key = none ↔ key ∉ keys e := by
  induction e with
  | nil => simp [keys]
  | cons p rest ih => by_cases h : p.1 = key <;> grind [get?, keys]

theorem get?_override_of_notMem {base top : Entries α} {key : String} (h : key ∉ keys top) :
    get? (override base top) key = get? base key := by
  induction top generalizing base with
  | nil => rfl
  | cons q rest ih =>
    have hq : q.1 ≠ key := fun e => h (by simp [keys, e])
    have hr : key ∉ keys rest := fun e => h (by simp only [keys, List.map_cons]; exact .tail _ e)
    rw [override, ih hr, get?_put, if_neg hq]

theorem notMem_keys_without (e : Entries α) (key : String) : key ∉ keys (without e key) := by
  simp [keys, without]

theorem without_of_notMem {e : Entries α} {key : String} (h : key ∉ keys e) :
    without e key = e := by
  rw [without, List.filter_eq_self]
  intro p hp
  have : p.1 ≠ key := fun heq => h (heq ▸ List.mem_map_of_mem hp)
  simpa using this

@[simp] theorem keys_mapValues (f : α → β) (e : Entries α) : keys (mapValues f e) = keys e := by
  simp [keys, mapValues]

theorem get?_mapValues (f : α → β) (e : Entries α) (key : String) :
    get? (mapValues f e) key = (get? e key).map f := by
  induction e with
  | nil => rfl
  | cons p rest ih =>
    by_cases h : p.1 = key
    · simp [mapValues, get?, h]
    · simpa [mapValues, get?, h] using ih

theorem get?_withoutAll (e : Entries α) (names : List String) (key : String) :
    get? (withoutAll e names) key = if names.contains key then none else get? e key := by
  induction e with
  | nil => simp [withoutAll]
  | cons p rest ih =>
    by_cases hp : p.1 = key
    · cases hn : names.contains p.1 <;> simp_all [withoutAll, get?]
    · cases hn : names.contains p.1 <;> simp_all [withoutAll, get?]

theorem keys_withoutAll (e : Entries α) (names : List String) :
    keys (withoutAll e names) = (keys e).filter fun k => !names.contains k := by
  rw [keys, keys, withoutAll, List.filter_map]
  rfl

/-- New keys go last, each where it comes first. -/
theorem keys_override (base top : Entries α) :
    keys (override base top) =
      keys base ++ ((keys top).filter fun k => !(keys base).contains k).eraseDups := by
  induction top generalizing base with
  | nil => simp [keys]
  | cons p rest ih =>
    rw [override, ih, keys_put]
    have hcons : keys (p :: rest) = p.1 :: keys rest := rfl
    by_cases h : p.1 ∈ keys base
    · rw [if_pos h, hcons, List.filter_cons_of_neg (by simpa using h)]
    · have hnew : (fun k => !(keys base ++ [p.1]).contains k) =
          fun k => !k == p.1 && !(keys base).contains k := by
        funext k
        by_cases hk : k = p.1 <;> simp [hk]
      rw [if_neg h, hcons, List.filter_cons_of_pos (by simpa using h), List.eraseDups_cons,
        List.append_assoc, List.filter_filter, hnew]
      rfl

theorem keys_ofList (pairs : List (String × α)) : keys (ofList pairs) = (keys pairs).eraseDups := by
  rw [ofList, keys_override]
  have hall : (keys pairs).filter (fun k => !(keys ([] : Entries α)).contains k) = keys pairs :=
    List.filter_eq_self.mpr (by simp [keys])
  rw [hall]
  rfl

theorem nodup_keys_put {e : Entries α} (h : (keys e).Nodup) (key : String) (value : α) :
    (keys (put e key value)).Nodup := by
  rw [keys_put]
  split
  · exact h
  · rename_i hn
    refine List.nodup_append.mpr ⟨h, List.pairwise_singleton _ _, fun a ha b hb heq => ?_⟩
    rw [heq, List.mem_singleton.mp hb] at ha
    exact hn ha

theorem nodup_keys_override {base : Entries α} (h : (keys base).Nodup) (top : Entries α) :
    (keys (override base top)).Nodup := by
  induction top generalizing base with
  | nil => exact h
  | cons p rest ih => exact ih (nodup_keys_put h p.1 p.2)

theorem nodup_keys_ofList (pairs : List (String × α)) : (keys (ofList pairs)).Nodup :=
  have hempty : (keys ([] : Entries α)).Nodup := .nil
  nodup_keys_override hempty pairs

theorem nodup_eraseDups (names : List String) : names.eraseDups.Nodup := by
  have h := nodup_keys_ofList (names.map fun n => (n, ()))
  rw [keys_ofList] at h
  simpa [keys, Function.comp_def] using h

theorem mem_of_get? {e : Entries α} {key : String} {value : α} (h : get? e key = some value) :
    (key, value) ∈ e := by
  induction e with
  | nil => simp at h
  | cons p rest ih => by_cases hp : p.1 = key <;> grind [get?]

/-- Where no key is repeated, each entry is the one that is found under its key. -/
theorem get?_of_mem {e : Entries α} (h : (keys e).Nodup) {key : String} {value : α}
    (hm : (key, value) ∈ e) : get? e key = some value := by
  induction e with
  | nil => cases hm
  | cons p rest ih =>
    have hn := List.nodup_cons.mp h
    rcases List.mem_cons.mp hm with rfl | hm
    · exact if_pos rfl
    · have hp : p.1 ≠ key := fun heq => hn.1 (heq ▸ List.mem_map_of_mem hm)
      rw [get?, if_neg hp]
      exact ih hn.2 hm

end Entries
end Procedoc
