import Mathlib.Algebra.GroupWithZero.Nat
import Procedoc.Proofs.Rendering.Naming

/-! # From a sheet to a self-contained schema

A sheet on which every reference leads to a definition of lower rank is finished without obstacle,
and inlining then leaves what the first reference stands for (`outcome_inlined_finished`). -/
namespace Procedoc
set_option autoImplicit false

/-- A sheet on which all references lead to definitions, and down in rank. -/
structure Sheet.Complete (s : Sheet) (rank : String → Nat) : Prop where
  nodup : (Entries.keys s.definitions).Nodup
  ranked : Ranked s.definitions rank
  named : ∀ label ∈ Entries.keys s.definitions, label ∈ Renaming.namesOf s.names label
  unbroken : s.broken = []

variable {s : Sheet} {rank : String → Nat} {known : String → Prop}

theorem Sheet.Complete.target? (hs : s.Complete rank) {label : String} {d : Json}
    (h : Entries.get? s.definitions label = some d) :
    s.target? (.str (definitionRef label)) = .ok (some d) := by
  have hk : label ∈ Entries.keys s.definitions := mem_keys_of_isSome (by rw [h]; rfl)
  have hn : Entries.has s.names label = true := by
    have hm := hs.named label hk
    rw [Renaming.namesOf] at hm
    rw [Entries.has]
    cases hg : Entries.get? s.names label with
    | none =>
      rw [hg] at hm
      cases hm
    | some ns => rfl
  simp [Sheet.target?, Option.filter, hn, hs.unbroken, h]

/-! ## Counting references -/

theorem Tally.of_put (t : Tally) (ref ref' : String) (n : Nat) :
    Tally.of (Entries.put t ref n) ref' = if ref = ref' then n else t.of ref' := by
  rw [Tally.of, Entries.get?_put]
  by_cases h : ref = ref'
  · rw [if_pos h, if_pos h, Option.getD_some]
  · rw [if_neg h, if_neg h, Tally.of]

/-- What is still to be searched: data that cites, or a text beside it. -/
def Searchable (known : String → Prop) (j : Json) : Prop := (∃ s, j = .str s) ∨ CitesOnly known j

theorem searchable_searched {e : Entries Json} (h : CitesOnly known (.obj e)) :
    ∀ j ∈ searched e, Searchable known j := by
  intro j hj
  obtain ⟨hn, hr, hp, -⟩ := citesOnly_obj.mp h
  obtain ⟨p, hm, heq⟩ := List.mem_filterMap.mp hj
  have hjp : j = p.2 := by
    dsimp only at heq
    split at heq
    · rename_i items hi
      split at heq
      · cases heq
      · rw [hi]
        exact (Option.some.inj heq).symm
    · exact (Option.some.inj heq).symm
  rw [hjp]
  by_cases hk : p.1 = "$ref"
  · obtain ⟨name, -, hv⟩ := hr p.2 (Entries.get?_of_mem hn (hk ▸ hm))
    exact .inl ⟨_, hv⟩
  · exact .inr (hp p hm hk)

theorem Sheet.Complete.tally_refers (hs : s.Complete rank) {e : Entries Json} {name : String}
    {d : Json} (hd : Entries.get? s.definitions name = some d) (href : Refers e name) (steps : Nat)
    (rest : List Json) (t : Tally) :
    tally s (steps + 1) (.obj e :: rest) t =
      if 0 < t.of (definitionRef name) then
        tally s steps rest (Entries.put t (definitionRef name) (t.of (definitionRef name) + 1))
      else tally s steps (d :: searched e ++ rest)
        (Entries.put t (definitionRef name) (t.of (definitionRef name) + 1)) := by
  rw [tally, href]
  dsimp only
  split
  · rfl
  · rw [hs.target? hd]
    rfl

/-- References are counted without obstacle, and one that nothing refers to is not counted. -/
theorem tally_isOk (hs : s.Complete rank) (top : String) (steps : Nat) (pending : List Json)
    (t : Tally) (h : ∀ j ∈ pending, Searchable
      (fun name => (Entries.get? s.definitions name).isSome ∧ rank name < rank top) j) :
    ∃ t', tally s steps pending t = .ok t' ∧
      t'.of (definitionRef top) = t.of (definitionRef top) := by
  induction steps generalizing pending t with
  | zero => exact ⟨t, by rw [tally], rfl⟩
  | succ steps ih =>
    cases pending with
    | nil => exact ⟨t, by simp [tally], rfl⟩
    | cons j rest =>
      obtain ⟨hj, hrest⟩ := List.forall_mem_cons.mp h
      rcases hj with ⟨text, rfl⟩ | hc
      · rw [tally]
        · exact ih rest t hrest
        · nofun
        · nofun
      · cases j with
        | arr items =>
          rw [tally]
          exact ih _ t (List.forall_mem_append.mpr
            ⟨fun x hx => .inr (citesOnly_arr.mp hc x hx), hrest⟩)
        | obj e =>
          have hsearched := List.forall_mem_append.mpr ⟨searchable_searched hc, hrest⟩
          rcases refers_or_get?_eq_none hc with ⟨name, ⟨hdef, hrank⟩, href⟩ | hnone
          · obtain ⟨d, hd⟩ := Option.isSome_iff_exists.mp hdef
            have hof (n : Nat) : Tally.of (Entries.put t (definitionRef name) n)
                (definitionRef top) = t.of (definitionRef top) := by
              rw [Tally.of_put, if_neg fun heq => ?_]
              rw [definitionRef_inj.mp heq] at hrank
              omega
            rw [hs.tally_refers hd href]
            split
            · obtain ⟨t', ht', hof'⟩ := ih rest _ hrest
              exact ⟨t', ht', hof'.trans (hof _)⟩
            · have hd' : CitesOnly
                  (fun name => (Entries.get? s.definitions name).isSome ∧ rank name < rank top) d :=
                (hs.ranked.cites name d hd).mono fun next hn => ⟨hn.1, by omega⟩
              obtain ⟨t', ht', hof'⟩ := ih (d :: searched e ++ rest) _
                (List.forall_mem_cons.mpr ⟨.inr hd', hsearched⟩)
              exact ⟨t', ht', hof'.trans (hof _)⟩
          · rw [tally, hnone]
            exact ih _ t hsearched
        | _ =>
          rw [tally]
          · exact ih rest t hrest
          · nofun
          · nofun

/-! ## Definitions in use -/

theorem referencesOfList_eq (items : List Json) :
    referencesOfList items = items.flatMap references := by
  induction items with
  | nil => rfl
  | cons j rest ih => rw [referencesOfList, ih, List.flatMap_cons]

def referencesOfEntry (p : String × Json) : List String :=
  match p.2 with
  | .str ref => if p.1 = "$ref" then [ref] else []
  | .arr items => if p.1 = "examples" then [] else referencesOfList items
  | value => references value

theorem referencesOfEntries_eq (e : List (String × Json)) :
    referencesOfEntries e = e.flatMap referencesOfEntry := by
  induction e with
  | nil => rfl
  | cons p rest ih =>
    obtain ⟨key, value⟩ := p
    cases value <;> simp only [referencesOfEntries, ih, List.flatMap_cons, referencesOfEntry]

theorem exists_of_mem_references {j : Json} (h : CitesOnly known j) :
    ∀ ref ∈ references j, ∃ name, known name ∧ ref = definitionRef name := by
  induction h with
  | @scalar j ha ho hs =>
    cases j with
    | arr items => exact absurd rfl (ha items)
    | obj e => exact absurd rfl (ho e)
    | _ => intro ref hr; simp [references] at hr
  | @arr items h ih =>
    intro ref hr
    rw [references, referencesOfList_eq] at hr
    obtain ⟨x, hx, hr⟩ := List.mem_flatMap.mp hr
    exact ih x hx ref hr
  | @obj e hn hr hex h ih =>
    intro ref href
    rw [references, referencesOfEntries_eq] at href
    obtain ⟨p, hp, href⟩ := List.mem_flatMap.mp href
    by_cases hk : p.1 = "$ref"
    · obtain ⟨name, hname, hv⟩ := hr p.2 (Entries.get?_of_mem hn (hk ▸ hp))
      rw [referencesOfEntry, hv] at href
      simp only [hk, if_true, List.mem_singleton] at href
      exact ⟨name, hname, href⟩
    · have hin : ref ∈ references p.2 := by
        rw [referencesOfEntry] at href
        split at href
        · rw [if_neg hk] at href
          cases href
        · rename_i items hv
          split at href
          · cases href
          · rw [hv, references]
            exact href
        · exact href
      exact ih p hp hk ref hin

theorem mem_references_of_mentions {j : Json} (h : CitesOnly known j) {name : String}
    (hm : Mentions j name) : definitionRef name ∈ references j := by
  induction h with
  | scalar ha ho hs => exact absurd hm (not_mentions_scalar ho ha)
  | @arr items h ih =>
    obtain ⟨x, hx, hx'⟩ := mentions_arr.mp hm
    rw [references, referencesOfList_eq]
    exact List.mem_flatMap.mpr ⟨x, hx, ih x hx hx'⟩
  | @obj e hn hr hex h ih =>
    rw [references, referencesOfEntries_eq]
    rcases mentions_obj.mp hm with href | ⟨p, hp, hp'⟩
    · refine List.mem_flatMap.mpr ⟨_, Entries.mem_of_get? href, ?_⟩
      simp [referencesOfEntry]
    · refine List.mem_flatMap.mpr ⟨p, hp, ?_⟩
      by_cases hk : p.1 = "$ref"
      · obtain ⟨label, -, hv⟩ := hr p.2 (Entries.get?_of_mem hn (hk ▸ hp))
        rw [hv] at hp'
        exact absurd hp' not_mentions_str
      · have hin := ih p hp hk hp'
        rw [referencesOfEntry]
        split
        · rename_i text hv
          rw [hv] at hp'
          exact absurd hp' not_mentions_str
        · rename_i items hv
          split
          · rename_i hkey
            have hget := Entries.get?_of_mem hn hp
            rw [hkey, hv] at hget
            rw [hv] at hp'
            exact absurd hp' (hex items hget name)
          · rw [hv, references] at hin
            exact hin
        · exact hin

theorem length_references_le (j : Json) : (references j).length ≤ j.count := by
  induction j using Json.parts_induction with
  | scalar j ha ho =>
    cases j with
    | arr items => exact absurd rfl (ha items)
    | obj e => exact absurd rfl (ho e)
    | _ => simp [references]
  | arr items ih =>
    rw [references, Json.count]
    have hlist : (referencesOfList items).length ≤ Json.countList items := by
      induction items with
      | nil => simp [referencesOfList]
      | cons x rest ihr =>
        have hx := ih x (List.mem_cons_self ..)
        have hr := ihr fun y hy => ih y (List.mem_cons_of_mem _ hy)
        rw [referencesOfList, Json.countList, List.length_append]
        omega
    omega
  | obj e ih =>
    rw [references, Json.count]
    have hentries : (referencesOfEntries e).length ≤ Json.countEntries e := by
      induction e with
      | nil => simp [referencesOfEntries]
      | cons p rest ihr =>
        obtain ⟨key, value⟩ := p
        have hx := ih (key, value) (List.mem_cons_self ..)
        have hr := ihr fun y hy => ih y (List.mem_cons_of_mem _ hy)
        have hone : (referencesOfEntry (key, value)).length ≤ Json.count value := by
          rw [referencesOfEntry]
          dsimp only
          split
          · split
            · simp [Json.count]
            · simp
          · split
            · simp
            · simpa [references] using hx
          · exact hx
        have hsplit : referencesOfEntries ((key, value) :: rest) =
            referencesOfEntry (key, value) ++ referencesOfEntries rest := by
          rw [referencesOfEntries_eq, referencesOfEntries_eq, List.flatMap_cons]
        rw [Json.countEntries, hsplit, List.length_append]
        omega
    omega

/-- The number of references in definitions that were not found. -/
def openReferences (definitions : Entries Json) (found : List String) : Nat :=
  ((definitions.filter fun p => !found.contains p.1).map fun p => (references p.2).length).sum

theorem openReferences_cons (p : String × Json) (rest : Entries Json) (found : List String) :
    openReferences (p :: rest) found =
      (if p.1 ∈ found then 0 else (references p.2).length) + openReferences rest found := by
  unfold openReferences
  by_cases hp : p.1 ∈ found
  · simp [hp]
  · simp [hp]

theorem openReferences_append {definitions : Entries Json} {found : List String} {label : String}
    {d : Json} (hm : (label, d) ∈ definitions) (hn : label ∉ found) :
    openReferences definitions (found ++ [label]) + (references d).length ≤
      openReferences definitions found := by
  have hmem : ∀ name, name ∈ found ++ [label] ↔ name ∈ found ∨ name = label := by simp
  have hle : ∀ ds : Entries Json,
      openReferences ds (found ++ [label]) ≤ openReferences ds found := by
    intro ds
    induction ds with
    | nil => exact Nat.le_refl _
    | cons p rest ih =>
      rw [openReferences_cons, openReferences_cons]
      by_cases hp : p.1 ∈ found
      · rw [if_pos hp, if_pos ((hmem _).mpr (.inl hp))]
        omega
      · rw [if_neg hp]
        split <;> omega
  induction definitions with
  | nil => cases hm
  | cons p rest ih =>
    rw [openReferences_cons, openReferences_cons]
    rcases List.mem_cons.mp hm with rfl | hm
    · have h := hle rest
      rw [if_neg hn, if_pos ((hmem _).mpr (.inr rfl))]
      dsimp only
      omega
    · have h := ih hm
      by_cases hp : p.1 ∈ found
      · rw [if_pos hp, if_pos ((hmem _).mpr (.inl hp))]
        omega
      · rw [if_neg hp]
        split <;> omega

/-- What following references leaves of those that are pending and the labels that were found
before: all of these are found, and with each label that is new all that its definition refers to. -/
structure LeadsTo (definitions : Entries Json) (pending found found' : List String) : Prop where
  kept : ∀ label ∈ found, label ∈ found'
  met : ∀ label, definitionRef label ∈ pending → label ∈ found'
  closed : ∀ label ∈ found', label ∉ found → ∀ d, Entries.get? definitions label = some d →
    ∀ next, definitionRef next ∈ references d → next ∈ found'

theorem definitionRef_mem_cons {name label : String} {refs : List String} :
    definitionRef name ∈ definitionRef label :: refs ↔ name = label ∨ definitionRef name ∈ refs := by
  rw [List.mem_cons, definitionRef_inj]

namespace LeadsTo
variable {definitions : Entries Json} {refs found found' : List String} {label : String}

theorem nil : LeadsTo definitions [] found found :=
  ⟨fun _ h => h, nofun, fun _ h hn => absurd h hn⟩

/-- A label that was found is not followed again. -/
theorem skip (hin : label ∈ found) (h : LeadsTo definitions refs found found') :
    LeadsTo definitions (definitionRef label :: refs) found found' where
  kept := h.kept
  met name hname := by
    rcases definitionRef_mem_cons.mp hname with rfl | hr
    · exact h.kept name hin
    · exact h.met name hr
  closed := h.closed

theorem follow {d : Json} (hd : Entries.get? definitions label = some d)
    (h : LeadsTo definitions (references d ++ refs) (found ++ [label]) found') :
    LeadsTo definitions (definitionRef label :: refs) found found' where
  kept name hname := h.kept name (List.mem_append_left _ hname)
  met name hname := by
    rcases definitionRef_mem_cons.mp hname with rfl | hr
    · exact h.kept name (List.mem_append_right _ (List.mem_singleton.mpr rfl))
    · exact h.met name (List.mem_append_right _ hr)
  closed name hname hnot d' hd' next hnext := by
    by_cases heq : name = label
    · subst heq
      obtain rfl : d = d' := Option.some.inj (hd.symm.trans hd')
      exact h.met next (List.mem_append_left _ hnext)
    · refine h.closed name hname (fun hm => ?_) d' hd' next hnext
      rcases List.mem_append.mp hm with hm | hm
      · exact hnot hm
      · exact heq (List.mem_singleton.mp hm)

end LeadsTo

/-- With enough steps all references are followed to their end. -/
theorem leads_isOk (steps : Nat) (pending found : List String)
    (hp : ∀ ref ∈ pending, ∃ label, (Entries.get? s.definitions label).isSome ∧
      ref = definitionRef label)
    (hd : ∀ label d, Entries.get? s.definitions label = some d → ∀ ref ∈ references d,
      ∃ next, (Entries.get? s.definitions next).isSome ∧ ref = definitionRef next)
    (hsteps : pending.length + openReferences s.definitions found ≤ steps) :
    ∃ found', leads s steps pending found = .ok found' ∧
      LeadsTo s.definitions pending found found' := by
  induction steps generalizing pending found with
  | zero =>
    obtain rfl : pending = [] := List.length_eq_zero_iff.mp (by omega)
    exact ⟨found, by rw [leads], .nil⟩
  | succ steps ih =>
    cases pending with
    | nil => exact ⟨found, by simp [leads], .nil⟩
    | cons ref rest =>
      obtain ⟨⟨label, hlabel, rfl⟩, hrest⟩ := List.forall_mem_cons.mp hp
      obtain ⟨d, hget⟩ := Option.isSome_iff_exists.mp hlabel
      rw [leads]
      simp only [definitionName?_definitionRef, Option.bind_some, hget, Option.map_some]
      rw [List.length_cons] at hsteps
      by_cases hin : label ∈ found
      · rw [if_pos (List.contains_iff_mem.mpr hin)]
        obtain ⟨found', hok, hleads⟩ := ih rest found hrest (by omega)
        exact ⟨found', hok, hleads.skip hin⟩
      · rw [if_neg fun h => hin (List.contains_iff_mem.mp h)]
        have hcost := openReferences_append (Entries.mem_of_get? hget) hin
        obtain ⟨found', hok, hleads⟩ := ih (references d ++ rest) (found ++ [label])
          (List.forall_mem_append.mpr ⟨hd label d hget, hrest⟩)
          (by rw [List.length_append]; omega)
        exact ⟨found', hok, hleads.follow hget⟩

/-! ## Data that cites stays so -/

theorem hasUnhashableItem_eq (items : List Json) :
    hasUnhashableItem items = items.any hasUnhashable := by
  induction items with
  | nil => rfl
  | cons j rest ih => rw [hasUnhashableItem, ih, List.any_cons]

theorem hasUnhashable_eq_false {j : Json} (h : CitesOnly known j) : hasUnhashable j = false := by
  induction h with
  | @scalar j ha ho hs =>
    cases j with
    | arr items => exact absurd rfl (ha items)
    | obj e => exact absurd rfl (ho e)
    | _ => rfl
  | @arr items h ih =>
    rw [hasUnhashable, hasUnhashableItem_eq, List.any_eq_false]
    intro x hx
    rw [ih x hx]
    exact Bool.false_ne_true
  | @obj e hn hr hex h ih =>
    rw [hasUnhashable]
    have hall : ∀ p ∈ e, p.1 = "$ref" ∧ (∃ name, p.2 = .str (definitionRef name)) ∨
        p.1 ≠ "$ref" ∧ hasUnhashable p.2 = false := by
      intro p hp
      by_cases hk : p.1 = "$ref"
      · obtain ⟨name, -, hv⟩ := hr p.2 (Entries.get?_of_mem hn (hk ▸ hp))
        exact .inl ⟨hk, name, hv⟩
      · exact .inr ⟨hk, ih p hp hk⟩
    clear hn hr hex h ih
    induction e with
    | nil => rfl
    | cons p rest ihr =>
      have hrest := ihr fun q hq => hall q (List.mem_cons_of_mem _ hq)
      obtain ⟨key, value⟩ := p
      rcases hall (key, value) (List.mem_cons_self ..) with ⟨-, name, hv⟩ | ⟨hk, hv⟩
      · obtain rfl : value = .str (definitionRef name) := hv
        simp [hasUnhashableEntry, hrest]
      · have hk' : key ≠ "$ref" := hk
        have hv' : hasUnhashable value = false := hv
        cases value <;> simp_all [hasUnhashableEntry, hasUnhashable]

theorem mem_sortedEntries {e : Entries Json} {p : String × Json} :
    p ∈ Json.sortedEntries e ↔
      ∃ q ∈ e, p = (q.1, Json.sortedWithin (Json.keepsOrder q.1) q.2) := by
  rw [Json.sortedEntries_eq, List.mem_map]
  constructor
  · rintro ⟨q, hq, rfl⟩
    exact ⟨q, hq, rfl⟩
  · rintro ⟨q, hq, rfl⟩
    exact ⟨q, hq, rfl⟩

/-- The entries of an object that is brought into order, in some order. -/
theorem mem_entries_sortedWithin (kept : Bool) {e : Entries Json} {p : String × Json} :
    p ∈ (Json.sortedWithin kept (.obj e)).entries ↔
      ∃ q ∈ e, p = (q.1, Json.sortedWithin (Json.keepsOrder q.1) q.2) := by
  rw [← mem_sortedEntries, Json.sortedWithin, Json.entries_obj]
  split
  · rfl
  · exact (Json.perm_sortByKey _).mem_iff

theorem sortedWithin_obj (kept : Bool) (e : Entries Json) : Json.sortedWithin kept (.obj e) =
    .obj (Json.sortedWithin kept (.obj e)).entries := by
  rw [Json.sortedWithin]
  rfl

theorem mentions_of_sortedWithin (kept : Bool) {j : Json} (h : Json.Distinct j) {name : String}
    (hm : Mentions (Json.sortedWithin kept j) name) : Mentions j name := by
  induction j using Json.parts_induction generalizing kept with
  | scalar j ha ho =>
    cases j with
    | arr items => exact absurd rfl (ha items)
    | obj e => exact absurd rfl (ho e)
    | _ => exact hm
  | arr items ih =>
    rw [Json.distinct_arr] at h
    rw [Json.sortedWithin, Json.sortedList_eq] at hm
    obtain ⟨x, hx, hx'⟩ := mentions_arr.mp hm
    obtain ⟨y, hy, rfl⟩ := List.mem_map.mp hx
    exact mentions_arr.mpr ⟨y, hy, ih y hy kept (h y hy) hx'⟩
  | obj e ih =>
    rw [Json.distinct_obj] at h
    rw [sortedWithin_obj] at hm
    rcases mentions_obj.mp hm with href | ⟨p, hp, hp'⟩
    · rw [Refers, Json.get?_entries_sortedWithin kept h.1] at href
      obtain ⟨v, hv, hs⟩ := Option.map_eq_some_iff.mp href
      refine mentions_obj.mpr (.inl ?_)
      rw [Refers, hv]
      cases v <;> simp_all [Json.sortedWithin]
    · obtain ⟨q, hq, rfl⟩ := (mem_entries_sortedWithin kept).mp hp
      exact mentions_obj.mpr (.inr ⟨q, hq, ih q hq _ (h.2 q hq) hp'⟩)

theorem citesOnly_sortedWithin (kept : Bool) {j : Json} (h : CitesOnly known j) :
    CitesOnly known (Json.sortedWithin kept j) := by
  induction h generalizing kept with
  | @scalar j ha ho hs =>
    cases j with
    | arr items => exact absurd rfl (ha items)
    | obj e => exact absurd rfl (ho e)
    | _ => exact .scalar ha ho hs
  | @arr items h ih =>
    rw [Json.sortedWithin, Json.sortedList_eq, citesOnly_arr]
    intro x hx
    obtain ⟨y, hy, rfl⟩ := List.mem_map.mp hx
    exact ih y hy kept
  | @obj e hn hr hex h ih =>
    have hd : Json.Distinct (.obj e) := (CitesOnly.obj hn hr hex h).distinct
    have hd' := Json.distinct_sortedWithin kept hd
    rw [sortedWithin_obj] at hd' ⊢
    refine .obj (Json.distinct_obj.mp hd').1 (fun v hv => ?_) (fun items hi => ?_)
      fun p hp hk => ?_
    · rw [Json.get?_entries_sortedWithin kept hn] at hv
      obtain ⟨w, hw, rfl⟩ := Option.map_eq_some_iff.mp hv
      obtain ⟨name, hname, rfl⟩ := hr w hw
      exact ⟨name, hname, rfl⟩
    · rw [Json.get?_entries_sortedWithin kept hn] at hi
      obtain ⟨w, hw, hs⟩ := Option.map_eq_some_iff.mp hi
      have hdw := (Json.distinct_obj.mp hd).2 _ (Entries.mem_of_get? hw)
      intro name hm
      rw [← hs] at hm
      have hmw := mentions_of_sortedWithin _ hdw hm
      cases w with
      | arr xs => exact hex xs hw name hmw
      | obj e' =>
        rw [sortedWithin_obj] at hs
        cases hs
      | _ => exact absurd hmw (not_mentions_scalar (fun _ h => by cases h) fun _ h => by cases h)
    · obtain ⟨q, hq, rfl⟩ := (mem_entries_sortedWithin kept).mp hp
      exact ih q hq hk _

/-! ## Alike definitions -/

theorem alike_of_solves {ds ds' : Entries Json} {env env' : String → Json}
    (hd : Ranked ds rank) (hd' : Ranked ds' rank) (hs : Solves ds env) (hs' : Solves ds' env')
    (h : ∀ name, Option.Rel Json.Alike (Entries.get? ds name) (Entries.get? ds' name))
    {name : String} (hn : (Entries.get? ds name).isSome) : Json.Alike (env name) (env' name) := by
  have hstep : ∀ k name, (Entries.get? ds name).isSome → rank name < k →
      Json.Alike (env name) (env' name) := by
    intro k
    induction k with
    | zero => intro name _ hk; omega
    | succ k ih =>
      intro name hn hk
      obtain ⟨d, hget⟩ := Option.isSome_iff_exists.mp hn
      have hrel := h name
      rw [hget, rel_some_left] at hrel
      obtain ⟨d', hget', halike⟩ := hrel
      rw [hs name d hget, hs' name d' hget']
      have hc := hd.cites name d hget
      have hc' : CitesOnly (fun next => (Entries.get? ds next).isSome ∧ rank next < rank name) d' :=
        (hd'.cites name d' hget').mono fun next hnext =>
          ⟨(rel_isSome (h next)).trans hnext.1, hnext.2⟩
      exact Json.alike_resolved hc hc' halike fun next hnext => ih next hnext.1 (by omega)
  exact hstep _ name hn (Nat.lt_succ_self _)

/-! ## The schema of a definition -/

/-- A schema with the definitions it needs, all under their names. -/
def wholeOf (names : Entries (List String)) (inUse body : Entries Json) : Entries Json :=
  if inUse.isEmpty then (Renaming.simplest names inUse).dataOfEntries body
  else Entries.put ((Renaming.simplest names inUse).dataOfEntries body) "$defs"
    (.obj ((Renaming.simplest names inUse).definitions inUse))

/-- A schema with the definitions it needs, all under their names and in order. -/
def finished (names : Entries (List String)) (inUse body : Entries Json) : Entries Json :=
  (Json.obj (wholeOf names inUse body)).sorted.entries

theorem get?_filter_keys {α : Type} (e : Entries α) (p : String → Bool) (k : String) :
    Entries.get? (e.filter fun q => p q.1) k = if p k then Entries.get? e k else none := by
  induction e with
  | nil => simp
  | cons q rest ih =>
    by_cases hq : p q.1 = true
    · rw [List.filter_cons, if_pos hq, Entries.get?, Entries.get?, ih]
      by_cases hk : q.1 = k
      · rw [if_pos hk, if_pos hk, ← hk, if_pos hq]
      · rw [if_neg hk, if_neg hk]
    · rw [List.filter_cons, if_neg hq, Entries.get?, ih]
      by_cases hk : q.1 = k
      · rw [if_pos hk, ← hk, if_neg hq, if_neg hq]
      · rw [if_neg hk]

theorem Sheet.stepsFor_eq (schema : Entries Json) : s.stepsFor schema =
    (Json.obj schema).count + (s.definitions.map fun d => d.2.count).sum :=
  List.foldl_eq_apply_foldr

theorem Sheet.exists_stepsFor_reference (s : Sheet) (label : String) :
    ∃ k, s.stepsFor (referenceTo label) = k + 2 := by
  refine ⟨s.stepsFor (referenceTo label) - 2, ?_⟩
  have hcount : (Json.obj (referenceTo label)).count = 2 := rfl
  rw [Sheet.stepsFor_eq, hcount]
  omega

theorem openReferences_nil_le (definitions : Entries Json) :
    openReferences definitions [] ≤ (definitions.map fun d => d.2.count).sum := by
  induction definitions with
  | nil => exact Nat.le_refl _
  | cons p rest ih =>
    have hp := length_references_le p.2
    rw [openReferences_cons, List.map_cons, List.sum_cons, if_neg List.not_mem_nil]
    omega

theorem unfold_reference {top : String} {body : Entries Json} (hs : s.Complete rank)
    (htop : Entries.get? s.definitions top = some (.obj body))
    (href : Entries.get? body "$ref" = none) {t : Tally} (ht : t.of (definitionRef top) = 1)
    (steps : Nat) : unfold s (steps + 1) t (referenceTo top) = .ok body := by
  have hget : Entries.get? (referenceTo top) "$ref" = some (.str (definitionRef top)) := rfl
  rw [unfold]
  simp only [hget, hs.target? htop, bind, Except.bind, ht]
  rw [if_pos (by rfl), Json.entries_obj]
  cases steps with
  | zero => rw [unfold]
  | succ steps => rw [unfold, href]

/-- The first reference is met once, and nothing refers to it again. -/
theorem tally_reference {top : String} {body : Entries Json} (hs : s.Complete rank)
    (htop : Entries.get? s.definitions top = some (.obj body)) :
    ∃ t, tally s (s.stepsFor (referenceTo top)) [.obj (referenceTo top)] [] = .ok t ∧
      t.of (definitionRef top) = 1 := by
  obtain ⟨k, hk⟩ := s.exists_stepsFor_reference top
  have hget : Entries.get? (referenceTo top) "$ref" = some (.str (definitionRef top)) := rfl
  have hzero : Tally.of [] (definitionRef top) = 0 := rfl
  rw [hk, tally, hget]
  simp only [hzero, Nat.lt_irrefl, if_false, hs.target? htop, bind, Except.bind]
  obtain ⟨t, ht, hof⟩ := tally_isOk hs top (k + 1)
    (.obj body :: searched (referenceTo top) ++ [])
    (Entries.put [] (definitionRef top) (0 + 1)) (fun j hj => by
      simp only [List.append_nil, List.mem_cons] at hj
      rcases hj with rfl | hj
      · exact .inr (hs.ranked.cites top _ htop)
      · have : j = .str (definitionRef top) := by simpa [searched, referenceTo] using hj
        exact .inl ⟨_, this⟩)
  refine ⟨t, ht, hof.trans ?_⟩
  rw [Tally.of_put, if_pos rfl]

/-- What is in use of the definitions on a sheet. -/
structure InUse (s : Sheet) (rank : String → Nat) (inUse body : Entries Json) : Prop where
  nodup : (Entries.keys inUse).Nodup
  get? : ∀ label d, Entries.get? inUse label = some d → Entries.get? s.definitions label = some d
  ranked : Ranked inUse rank
  cites : CitesOnly (fun label => (Entries.get? inUse label).isSome) (.obj body)

theorem InUse.named {inUse body : Entries Json} (hs : s.Complete rank)
    (h : InUse s rank inUse body) :
    ∀ label ∈ Entries.keys inUse, label ∈ Renaming.namesOf s.names label := by
  intro label hm
  obtain ⟨p, hp, rfl⟩ := List.mem_map.mp hm
  have hget := h.get? _ _ (Entries.get?_of_mem h.nodup hp)
  exact hs.named _ (Entries.mem_keys_of_mem (Entries.mem_of_get? hget))

theorem exists_inUse {top : String} {body : Entries Json} (hs : s.Complete rank)
    (htop : Entries.get? s.definitions top = some (.obj body)) :
    ∃ inUse, s.inUse body = .ok inUse ∧ InUse s rank inUse body := by
  have hbody := hs.ranked.cites top _ htop
  have hrefs : ∀ label d, Entries.get? s.definitions label = some d → ∀ ref ∈ references d,
      ∃ next, (Entries.get? s.definitions next).isSome ∧ ref = definitionRef next := by
    intro label d hd ref hr
    obtain ⟨next, hn, heq⟩ := exists_of_mem_references (hs.ranked.cites label d hd) ref hr
    exact ⟨next, hn.1, heq⟩
  obtain ⟨found, hleads, hfound⟩ := leads_isOk (s := s) (s.stepsFor body)
    (references (.obj body)) [] (hrefs top _ htop) hrefs (by
      have h₁ := length_references_le (.obj body)
      have h₂ := openReferences_nil_le s.definitions
      rw [Sheet.stepsFor_eq]
      omega)
  obtain ⟨inUse, hinUse⟩ : ∃ inUse, (s.definitions.filter fun d => found.contains d.1) = inUse :=
    ⟨_, rfl⟩
  have hget (label : String) : Entries.get? inUse label =
      if found.contains label then Entries.get? s.definitions label else none := by
    rw [← hinUse]
    exact get?_filter_keys s.definitions found.contains label
  have hsub : ∀ label d, Entries.get? inUse label = some d →
      label ∈ found ∧ Entries.get? s.definitions label = some d := by
    intro label d hd
    rw [hget] at hd
    by_cases hf : found.contains label = true
    · rw [if_pos hf] at hd
      exact ⟨List.contains_iff_mem.mp hf, hd⟩
    · rw [if_neg hf] at hd
      cases hd
  have hsome : ∀ label ∈ found, (Entries.get? s.definitions label).isSome →
      (Entries.get? inUse label).isSome := by
    intro label hf hd
    rw [hget, if_pos (List.contains_iff_mem.mpr hf)]
    exact hd
  refine ⟨inUse, ?_, ?_, fun label d hd => (hsub label d hd).2,
    ⟨fun label d hd => hs.ranked.isObject label d (hsub label d hd).2, fun label d hd => ?_⟩, ?_⟩
  · rw [Sheet.inUse, hleads, ← hinUse]
    rfl
  · rw [← hinUse]
    exact hs.nodup.sublist (List.Sublist.map _ List.filter_sublist)
  · obtain ⟨hf, hd'⟩ := hsub label d hd
    have hc := hs.ranked.cites label d hd'
    refine hc.and_mentions.mono fun next hnext => ⟨?_, hnext.1.2⟩
    exact hsome next (hfound.closed label hf List.not_mem_nil d hd' next
      (mem_references_of_mentions hc hnext.2)) hnext.1.1
  · refine hbody.and_mentions.mono fun next hnext => ?_
    exact hsome next (hfound.met next (mem_references_of_mentions hbody hnext.2)) hnext.1.1

theorem finish_isOk {top : String} {body : Entries Json} (hs : s.Complete rank)
    (htop : Entries.get? s.definitions top = some (.obj body))
    (href : Entries.get? body "$ref" = none) :
    ∃ inUse, s.finish (referenceTo top) = .ok (finished s.names inUse body) ∧
      InUse s rank inUse body := by
  obtain ⟨t, htally, hcount⟩ := tally_reference hs htop
  obtain ⟨inUse, hinUse, huse⟩ := exists_inUse hs htop
  refine ⟨inUse, ?_, huse⟩
  have hgood : (hasUnhashable (.obj body) || inUse.any fun d => hasUnhashable d.2) = false := by
    rw [Bool.or_eq_false_iff, List.any_eq_false]
    refine ⟨hasUnhashable_eq_false (hs.ranked.cites top _ htop), fun d hd => ?_⟩
    rw [hasUnhashable_eq_false (huse.ranked.cites d.1 d.2 (Entries.get?_of_mem huse.nodup hd))]
    exact Bool.false_ne_true
  rw [Sheet.finish, htally]
  simp only [bind, Except.bind, unfold_reference hs htop href hcount, hinUse, hgood]
  rfl

theorem CitesOnly.of_get?_eq {xs ys : Entries Json} (h : CitesOnly known (.obj xs))
    (hn : (Entries.keys ys).Nodup) (hxy : ∀ k, Entries.get? ys k = Entries.get? xs k) :
    CitesOnly known (.obj ys) := by
  obtain ⟨-, hr, hp, hex⟩ := citesOnly_obj.mp h
  refine .obj hn (fun v hv => hr v (hxy _ ▸ hv)) (fun items hi => hex items (hxy _ ▸ hi))
    fun p hm hk => ?_
  have hget := Entries.get?_of_mem hn hm
  rw [hxy] at hget
  exact hp (p.1, p.2) (Entries.mem_of_get? hget) hk

theorem exists_bound (ds : Entries Json) (rank : String → Nat) :
    ∃ n, ∀ name, (Entries.get? ds name).isSome → rank name < n := by
  induction ds with
  | nil => exact ⟨0, fun name hn => by cases hn⟩
  | cons p rest ih =>
    obtain ⟨n, hn⟩ := ih
    refine ⟨n + rank p.1 + 1, fun name hname => ?_⟩
    rw [Entries.get?] at hname
    by_cases hp : p.1 = name
    · rw [← hp]
      omega
    · rw [if_neg hp] at hname
      have := hn name hname
      omega

theorem ranked_sortedWithin {ds : Entries Json} (hn : (Entries.keys ds).Nodup)
    (hd : Ranked ds rank) : Ranked (Json.sortedWithin false (.obj ds)).entries rank := by
  have hget (name : String) := Json.get?_entries_sortedWithin false hn name
  have hsome (name : String) : (Entries.get? (Json.sortedWithin false (.obj ds)).entries
      name).isSome = (Entries.get? ds name).isSome := by
    rw [hget, Option.isSome_map]
  refine ⟨fun name d hd' => ?_, fun name d hd' => ?_⟩
  · rw [hget] at hd'
    obtain ⟨w, hw, rfl⟩ := Option.map_eq_some_iff.mp hd'
    have hobj := hd.isObject name w hw
    cases w with
    | obj e => rw [Json.sortedWithin]; rfl
    | _ => cases hobj
  · rw [hget] at hd'
    obtain ⟨w, hw, rfl⟩ := Option.map_eq_some_iff.mp hd'
    refine (citesOnly_sortedWithin _ (hd.cites name w hw)).mono fun next hnext => ?_
    rw [hsome]
    exact hnext

/-! ## Parts of a finished schema -/

section Finished
variable (names : Entries (List String)) {inUse body : Entries Json}

/-- The definitions as they stand in the finished schema. -/
def finishedDefinitions (names : Entries (List String)) (inUse : Entries Json) : Entries Json :=
  (Json.sortedWithin false
    (.obj ((Renaming.simplest names inUse).definitions inUse))).entries

def finishedBody (names : Entries (List String)) (inUse body : Entries Json) : Entries Json :=
  Entries.without (finished names inUse body) "$defs"

theorem nodup_dataOfEntries (n : Renaming) (hn : (Entries.keys body).Nodup) :
    (Entries.keys (n.dataOfEntries body)).Nodup := by
  rw [Renaming.dataOfEntries_eq, Entries.keys_mapValues]
  exact hn

theorem get?_finishedDefinitions (name : String) :
    Entries.get? (finishedDefinitions names inUse) name =
      (Entries.get? ((Renaming.simplest names inUse).definitions inUse) name).map
        (Json.sortedWithin (Json.keepsOrder name)) :=
  Json.get?_entries_sortedWithin false (Entries.nodup_keys_ofList _) name

theorem nodup_wholeOf (hn : (Entries.keys body).Nodup) :
    (Entries.keys (wholeOf names inUse body)).Nodup := by
  rw [wholeOf]
  split
  · exact nodup_dataOfEntries _ hn
  · exact Entries.nodup_keys_put (nodup_dataOfEntries _ hn) _ _

theorem get?_wholeOf {k : String} (hk : k ≠ "$defs") : Entries.get? (wholeOf names inUse body) k =
    Entries.get? ((Renaming.simplest names inUse).dataOfEntries body) k := by
  rw [wholeOf]
  split
  · rfl
  · rw [Entries.get?_put, if_neg (Ne.symm hk)]

theorem get?_finished (hn : (Entries.keys body).Nodup) (k : String) :
    Entries.get? (finished names inUse body) k =
      (Entries.get? (wholeOf names inUse body) k).map
        (Json.sortedWithin (Json.keepsOrder k)) :=
  Json.get?_entries_sortedWithin false (nodup_wholeOf names hn) k

theorem nodup_finished (hn : (Entries.keys body).Nodup) :
    (Entries.keys (finished names inUse body)).Nodup := by
  have hsorted : (Entries.keys (Json.sortedEntries (wholeOf names inUse body))).Nodup := by
    rw [Json.keys_sortedEntries]
    exact nodup_wholeOf names hn
  change (Entries.keys (Json.sortedWithin false (.obj (wholeOf names inUse body))).entries).Nodup
  rw [Json.sortedWithin]
  exact ((Json.perm_sortByKey _).map Prod.fst).nodup_iff.mpr hsorted

theorem nodup_finishedBody (hn : (Entries.keys body).Nodup) :
    (Entries.keys (finishedBody names inUse body)).Nodup :=
  Entries.nodup_keys_without (nodup_finished names hn) _

theorem get?_finishedBody (hn : (Entries.keys body).Nodup)
    (hdefs : Entries.get? body "$defs" = none) (k : String) :
    Entries.get? (finishedBody names inUse body) k =
      (Entries.get? ((Renaming.simplest names inUse).dataOfEntries body) k).map
        (Json.sortedWithin (Json.keepsOrder k)) := by
  rw [finishedBody, Entries.get?_without, get?_finished names hn]
  by_cases hk : k = "$defs"
  · rw [if_pos hk, hk, Renaming.get?_dataOfEntries, hdefs, Option.map_none, Option.map_none]
  · rw [if_neg hk, get?_wholeOf names hk]

theorem brings_finished (hn : (Entries.keys body).Nodup)
    (hdefs : Entries.get? body "$defs" = none)
    (hd : Ranked ((Renaming.simplest names inUse).definitions inUse) rank) :
    Brings (finished names inUse body) (finishedDefinitions names inUse) := by
  refine ⟨?_, fun d hm => ?_⟩
  · rw [get?_finished names hn, wholeOf]
    by_cases he : inUse.isEmpty = true
    · rw [if_pos he, Renaming.get?_dataOfEntries, hdefs, Option.map_none, Option.map_none]
      have hnil : inUse = [] := List.isEmpty_iff.mp he
      exact .inl ⟨rfl, by rw [hnil]; rfl⟩
    · rw [if_neg he, Entries.get?_put, if_pos rfl, Option.map_some, sortedWithin_obj]
      exact .inr rfl
  · obtain ⟨q, hq, rfl⟩ := (mem_entries_sortedWithin false).mp hm
    have hobj := hd.isObject q.1 q.2 (Entries.get?_of_mem (Entries.nodup_keys_ofList _) hq)
    cases hq2 : q.2 with
    | obj e =>
      rw [Json.sortedWithin]
      rfl
    | _ => rw [hq2] at hobj; cases hobj

/-- What stands under names and in order has values like those that stood under labels. -/
theorem exists_solves_finished {env : String → Json} (hn : (Entries.keys inUse).Nodup)
    (hd : Ranked inUse rank) (hs : Solves inUse env)
    (hself : ∀ label ∈ Entries.keys inUse, label ∈ Renaming.namesOf names label) :
    ∃ rank' env', Ranked ((Renaming.simplest names inUse).definitions inUse) rank' ∧
      Ranked (finishedDefinitions names inUse) rank' ∧
      Solves (finishedDefinitions names inUse) env' ∧
      ∀ label ∈ Entries.keys inUse,
        Json.Alike (env' ((Renaming.simplest names inUse).apply label)) (env label) := by
  obtain ⟨rank', env', hd', hs', halike⟩ := exists_solves_simplest hd hs hn hself
  have hD : Ranked (finishedDefinitions names inUse) rank' :=
    ranked_sortedWithin (Entries.nodup_keys_ofList _) hd'
  obtain ⟨env'', hs''⟩ := exists_solves hD
  refine ⟨rank', env'', hd', hD, hs'', fun label hl => ?_⟩
  have hsame (name : String) : Option.Rel Json.Alike
      (Entries.get? ((Renaming.simplest names inUse).definitions inUse) name)
      (Entries.get? (finishedDefinitions names inUse) name) := by
    rw [get?_finishedDefinitions]
    cases hx : Entries.get? ((Renaming.simplest names inUse).definitions inUse) name with
    | none => exact .none
    | some d => exact .some (Json.alike_sortedWithin _ (hd'.cites name d hx).distinct).symm
  exact (alike_of_solves hd' hD hs' hs'' hsame (isSome_get?_definitions hl)).symm.trans
    (halike label hl)

theorem cites_dataOfEntries (hb : CitesOnly (fun label => (Entries.get? inUse label).isSome)
    (.obj body)) : CitesOnly (fun name => (Entries.get? (finishedDefinitions names inUse)
      name).isSome) (.obj ((Renaming.simplest names inUse).dataOfEntries body)) :=
  (Renaming.simplest names inUse).citesOnly_data hb fun label hl => by
    rw [get?_finishedDefinitions, Option.isSome_map]
    exact isSome_get?_definitions (mem_keys_of_isSome hl)

theorem cites_finishedBody (hb : CitesOnly (fun label => (Entries.get? inUse label).isSome)
    (.obj body)) (hdefs : Entries.get? body "$defs" = none) :
    CitesOnly (fun name => (Entries.get? (finishedDefinitions names inUse) name).isSome)
      (.obj (finishedBody names inUse body)) := by
  have hn : (Entries.keys body).Nodup := (citesOnly_obj.mp hb).1
  have h := citesOnly_sortedWithin false (cites_dataOfEntries names hb)
  rw [sortedWithin_obj] at h
  refine h.of_get?_eq (nodup_finishedBody names hn) fun k => ?_
  rw [get?_finishedBody names hn hdefs,
    Json.get?_entries_sortedWithin false (nodup_dataOfEntries _ hn)]

theorem alike_finishedBody {env env' : String → Json}
    (hb : CitesOnly (fun label => (Entries.get? inUse label).isSome) (.obj body))
    (hdefs : Entries.get? body "$defs" = none)
    (halike : ∀ label ∈ Entries.keys inUse,
      Json.Alike (env' ((Renaming.simplest names inUse).apply label)) (env label)) :
    Json.Alike (Json.resolved env' (.obj (finishedBody names inUse body)))
      (Json.resolved env (.obj body)) := by
  have hcn := cites_dataOfEntries names hb
  have hbody : Json.Alike (.obj (finishedBody names inUse body))
      (.obj ((Renaming.simplest names inUse).dataOfEntries body)) := by
    rw [Json.alike_obj]
    intro k
    rw [get?_finishedBody names (citesOnly_obj.mp hb).1 hdefs]
    cases hx : Entries.get? ((Renaming.simplest names inUse).dataOfEntries body) k with
    | none => exact .none
    | some v =>
      have hdv := (Json.distinct_obj.mp hcn.distinct).2 _ (Entries.mem_of_get? hx)
      exact .some (Json.alike_sortedWithin _ hdv)
  have hrenamed : Json.resolved env'
      (.obj ((Renaming.simplest names inUse).dataOfEntries body)) =
        Json.resolved (fun label => env' ((Renaming.simplest names inUse).apply label))
          (.obj body) :=
    (Renaming.simplest names inUse).resolved_data hb
  have h : Json.Alike (Json.resolved env' (.obj (finishedBody names inUse body)))
      (Json.resolved env' (.obj ((Renaming.simplest names inUse).dataOfEntries body))) :=
    Json.alike_resolved (cites_finishedBody names hb hdefs) hcn hbody fun _ _ => .refl _
  rw [hrenamed] at h
  exact h.trans (Json.alike_resolved hb hb (.refl _) fun label hl =>
    halike label (mem_keys_of_isSome hl))

end Finished

/-- Inlining a finished schema leaves its body with values for references; properties keep their
order. -/
theorem outcome_inlined_finished {names : Entries (List String)} {inUse body : Entries Json}
    {env : String → Json} (hn : (Entries.keys inUse).Nodup) (hd : Ranked inUse rank)
    (hs : Solves inUse env)
    (hself : ∀ label ∈ Entries.keys inUse, label ∈ Renaming.namesOf names label)
    (hb : CitesOnly (fun label => (Entries.get? inUse label).isSome) (.obj body))
    (href : Entries.get? body "$ref" = none) (hdefs : Entries.get? body "$defs" = none) :
    ∃ r, (inlined (finished names inUse body)).outcome = .ok (.obj r) ∧
      Json.Distinct (.obj r) ∧ Json.Alike (.obj r) (Json.resolved env (.obj body)) ∧
      ∀ ps, Entries.get? body "properties" = some (.obj ps) → Entries.get? ps "$ref" = none →
        ∃ ps', Entries.get? r "properties" = some (.obj ps') ∧
          Entries.keys ps' = Entries.keys ps := by
  obtain ⟨rank', env', hd', hD, hs', halike⟩ := exists_solves_finished names hn hd hs hself
  have hnb : (Entries.keys body).Nodup := (citesOnly_obj.mp hb).1
  have hcites := cites_finishedBody names hb hdefs
  have hget (k : String) : Entries.get? (finishedBody names inUse body) k =
      (Entries.get? ((Renaming.simplest names inUse).dataOfEntries body) k).map
        (Json.sortedWithin (Json.keepsOrder k)) := get?_finishedBody names hnb hdefs k
  have hnoref : Entries.get? (finishedBody names inUse body) "$ref" = none := by
    rw [hget, Renaming.get?_dataOfEntries, href, Option.map_none, Option.map_none]
  have hunfolds : Unfolds (finishedDefinitions names inUse) (.obj (finishedBody names inUse body))
      (Json.resolved env' (.obj (finishedBody names inUse body))) := by
    obtain ⟨bound, hbound⟩ := exists_bound (finishedDefinitions names inUse) rank'
    exact unfolds_resolved hD hs' bound (hcites.mono fun name hname => ⟨hname, hbound name hname⟩)
  have houtcome := outcome_inlined_of_unfolds (brings_finished names hnb hdefs hd') hunfolds
  have hplain : Json.resolved env' (.obj (finishedBody names inUse body)) =
      .obj (Entries.mapValues (Json.resolved env') (finishedBody names inUse body)) :=
    Json.resolved_plain hnoref
  refine ⟨_, houtcome.trans (congrArg Except.ok hplain), ?_, ?_, fun ps hps hpsref => ?_⟩
  · rw [← hplain]
    exact Json.distinct_resolved hcites fun name hname =>
      hs'.distinct hD _ (Nat.lt_succ_self _) hname
  · rw [← hplain]
    exact alike_finishedBody names hb hdefs halike
  · have hgetP : Entries.get? (finishedBody names inUse body) "properties" =
        some (.obj (Json.sortedEntries
          ((Renaming.simplest names inUse).dataOfEntries ps))) := by
      rw [hget, Renaming.get?_dataOfEntries, hps]
      rfl
    have hrefP : Entries.get? (Json.sortedEntries
        ((Renaming.simplest names inUse).dataOfEntries ps)) "$ref" = none := by
      rw [Json.get?_sortedEntries, Renaming.get?_dataOfEntries, hpsref]
      rfl
    refine ⟨_, by rw [Entries.get?_mapValues, hgetP, Option.map_some,
      Json.resolved_plain hrefP], ?_⟩
    rw [Entries.keys_mapValues, Json.keys_sortedEntries, Renaming.dataOfEntries_eq,
      Entries.keys_mapValues]

end Procedoc
