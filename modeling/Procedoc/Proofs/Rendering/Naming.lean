import Mathlib.Data.List.Chain
import Mathlib.Data.Nat.Find
import Procedoc.Proofs.Rendering.Resolving

/-! # Names for definitions

Definitions get the simplest names that only they may go by, and definitions that are equal under
these names share one.  Sharing changes nothing in what references stand for:
`exists_solves_simplest` says that the value of each definition is found, up to likeness, under its new
name, and that the definitions under their new names can be solved again. -/
namespace Procedoc
set_option autoImplicit false

namespace Renaming

/-! ## Two renamings one after the other -/

theorem apply_map (f : String → String) {α : Type} {ds : Entries α} {label : String}
    (h : label ∈ Entries.keys ds) : apply (ds.map fun p => (p.1, f p.1)) label = f label := by
  have hget : Entries.get? (ds.map fun p => (p.1, f p.1)) label = some (f label) := by
    induction ds with
    | nil => cases h
    | cons p rest ih =>
      rw [List.map_cons, Entries.get?]
      by_cases hp : p.1 = label
      · rw [if_pos hp, hp]
      · rw [if_neg hp]
        rcases List.mem_cons.mp h with heq | hr
        · exact absurd heq.symm hp
        · exact ih hr
  rw [apply, hget, Option.getD_some]

theorem apply_of_notMem {n : Renaming} {label : String} (h : label ∉ Entries.keys n) :
    n.apply label = label := by
  rw [apply, Entries.get?_eq_none_iff.mpr h, Option.getD_none]

theorem data_data {known : String → Prop} {m n k : Renaming} {j : Json} (h : CitesOnly known j)
    (hk : ∀ name, known name → k.apply name = n.apply (m.apply name)) :
    n.data (m.data j) = k.data j := by
  induction h with
  | @scalar j ha ho hs =>
    cases j with
    | str s => rw [data, text_of_none m (hs s rfl).name, data, text_of_none n (hs s rfl).name, data,
        text_of_none k (hs s rfl).name]
    | arr items => exact absurd rfl (ha items)
    | obj e => exact absurd rfl (ho e)
    | _ => rfl
  | @arr items h ih =>
    simp only [data, dataOfList_eq, List.map_map]
    exact congrArg Json.arr (List.map_congr_left ih)
  | @obj e hn hr hex h ih =>
    simp only [data, dataOfEntries_eq, Entries.mapValues, List.map_map]
    refine congrArg Json.obj (List.map_congr_left fun p hp => ?_)
    simp only [Function.comp_apply, Prod.mk.injEq, true_and]
    by_cases hkey : p.1 = "$ref"
    · obtain ⟨name, hname, hv⟩ := hr p.2 (Entries.get?_of_mem hn (hkey ▸ hp))
      rw [hv, data, text_definitionRef, data, text_definitionRef, data, text_definitionRef,
        hk name hname]
    · exact ih p hp hkey

theorem data_nil (j : Json) : data [] j = j := by
  induction j using Json.parts_induction with
  | scalar j ha ho =>
    cases j with
    | str s =>
      rw [data, text]
      cases definitionName? s <;> rfl
    | arr items => exact absurd rfl (ha items)
    | obj e => exact absurd rfl (ho e)
    | _ => rfl
  | arr items ih => rw [data, dataOfList_eq, List.map_congr_left ih, List.map_id']
  | obj e ih =>
    rw [data, dataOfEntries_eq, Entries.mapValues]
    have hall : ∀ p ∈ e, (p.1, data [] p.2) = p := fun p hp => by rw [ih p hp]
    rw [List.map_congr_left hall, List.map_id']

/-! ## One value left of several -/

theorem length_settleIn (items : List Json) (j : Json) :
    items.length ≤ (Json.settleIn items j).length := by
  induction items with
  | nil => simp [Json.settleIn]
  | cons k rest ih =>
    rw [Json.settleIn]
    split
    · simp
    · simpa using ih

theorem length_foldl_settleIn (items found : List Json) :
    found.length ≤ (items.foldl Json.settleIn found).length := by
  induction items generalizing found with
  | nil => exact Nat.le_refl _
  | cons j rest ih => exact Nat.le_trans (length_settleIn found j) (ih _)

theorem chain_of_distinct {items : List Json} (h : (Json.distinct items).length = 1) :
    items.IsChain fun a b => a.equal b = true := by
  have hfold : ∀ (items : List Json) (k : Json), (items.foldl Json.settleIn [k]).length = 1 →
      (k :: items).IsChain fun a b => a.equal b = true := by
    intro items
    induction items with
    | nil => intro k hk; exact .singleton k
    | cons j rest ih =>
      intro k hk
      rw [List.foldl_cons, Json.settleIn] at hk
      by_cases hkj : k.equal j = true
      · rw [if_pos hkj] at hk
        exact .cons_cons hkj (ih j hk)
      · rw [if_neg hkj] at hk
        have hlen := length_foldl_settleIn rest [k, j]
        simp only [Json.settleIn] at hk
        rw [hk] at hlen
        simp at hlen
  cases items with
  | nil => exact .nil
  | cons j rest =>
    rw [Json.distinct, List.foldl_cons] at h
    exact hfold rest j h

/-! ## Definitions that may share a name -/

/-- An equivalence of labels that holds of two definitions which are equal once references to
equivalent definitions are written alike. -/
structure Sharing (ds : Entries Json) (R : String → String → Prop) : Prop where
  equiv : Equivalence R
  step : ∀ m : Renaming,
    (∀ a ∈ Entries.keys ds, ∀ b ∈ Entries.keys ds, m.apply a = m.apply b → R a b) →
    ∀ a b da db, Entries.get? ds a = some da → Entries.get? ds b = some db →
      (m.data da).equal (m.data db) = true → R a b

section
variable {names : Entries (List String)} {ds : Entries Json} {R : String → String → Prop}

/-- The names that the definition with a label may go by. -/
def namesOf (names : Entries (List String)) (label : String) : List String :=
  (Entries.get? names label).getD []

/-- What a name tells of the label that goes by it: it is the label of an equivalent definition, or
all definitions that may go by it are equivalent. -/
structure Faithful (names : Entries (List String)) (ds : Entries Json)
    (R : String → String → Prop) (name label : String) : Prop where
  owned : ∃ a ∈ Entries.keys ds, name ∈ namesOf names a ∧ R a label
  ofLabel : name ∈ Entries.keys ds → R name label
  ofName : name ∉ Entries.keys ds → ∀ a ∈ Entries.keys ds, name ∈ namesOf names a → R a label

theorem Faithful.related (hR : Equivalence R) {name a b : String}
    (ha : Faithful names ds R name a) (hb : Faithful names ds R name b) : R a b := by
  by_cases hk : name ∈ Entries.keys ds
  · exact hR.trans (hR.symm (ha.ofLabel hk)) (hb.ofLabel hk)
  · obtain ⟨c, hc, hname, hca⟩ := ha.owned
    exact hR.trans (hR.symm hca) (hb.ofName hk c hc hname)

theorem Faithful.transport (hR : Equivalence R) {name a b : String}
    (h : Faithful names ds R name a) (hab : R a b) : Faithful names ds R name b where
  owned := by
    obtain ⟨c, hc, hname, hca⟩ := h.owned
    exact ⟨c, hc, hname, hR.trans hca hab⟩
  ofLabel := fun hk => hR.trans (h.ofLabel hk) hab
  ofName := fun hk c hc hname => hR.trans (h.ofName hk c hc hname) hab

theorem Faithful.self (hR : Equivalence R) {label : String} (h : label ∈ Entries.keys ds)
    (hself : label ∈ namesOf names label) : Faithful names ds R label label where
  owned := ⟨label, h, hself, hR.refl _⟩
  ofLabel := fun _ => hR.refl _
  ofName := fun hk => absurd h hk

/-- Definitions under names that are chosen step by step: `m` are the names so far. -/
structure Written (ds now : Entries Json) (m : Renaming) : Prop where
  keys : Entries.keys now = Entries.keys ds
  get? : ∀ label d, Entries.get? ds label = some d → Entries.get? now label = some (m.data d)

theorem related_of_chain (hR : Equivalence R) {labels : List String}
    (h : labels.IsChain R) : ∀ a ∈ labels, ∀ b ∈ labels, R a b := by
  have hpair : labels.Pairwise R := by
    have : Trans R R R := ⟨hR.trans⟩
    exact h.pairwise
  intro a ha b hb
  rcases List.mem_iff_getElem.mp ha with ⟨i, hi, rfl⟩
  rcases List.mem_iff_getElem.mp hb with ⟨k, hk, rfl⟩
  rcases Nat.lt_trichotomy i k with hlt | heq | hgt
  · exact List.pairwise_iff_getElem.mp hpair i k hi hk hlt
  · subst heq
    exact hR.refl _
  · exact hR.symm (List.pairwise_iff_getElem.mp hpair k i hk hi hgt)

theorem related_of_claims (hs : Sharing ds R) {now : Entries Json} {m : Renaming}
    (hn : (Entries.keys ds).Nodup) (hw : Written ds now m)
    (hm : ∀ a ∈ Entries.keys ds, ∀ b ∈ Entries.keys ds, m.apply a = m.apply b → R a b)
    {name : String} (h : (claims names now name).length = 1) {a b : String}
    (ha : a ∈ Entries.keys ds) (hb : b ∈ Entries.keys ds)
    (hna : name ∈ namesOf names a) (hnb : name ∈ namesOf names b) : R a b := by
  have hchain := chain_of_distinct h
  rw [List.isChain_map] at hchain
  have hnow : (Entries.keys now).Nodup := hw.keys ▸ hn
  have hrel : ((now.filter fun d => ((Entries.get? names d.1).getD []).contains name).map
      Prod.fst).IsChain R := by
    rw [List.isChain_map]
    refine hchain.imp_of_mem_imp fun p q hp hq hpq => ?_
    have hp' := Entries.get?_of_mem hnow (List.mem_of_mem_filter hp)
    have hq' := Entries.get?_of_mem hnow (List.mem_of_mem_filter hq)
    have horig : ∀ p ∈ now, ∃ d, Entries.get? ds p.1 = some d ∧ p.2 = m.data d := by
      intro p hp
      have hk : p.1 ∈ Entries.keys ds := hw.keys ▸ Entries.mem_keys_of_mem hp
      cases hd : Entries.get? ds p.1 with
      | none => exact absurd hk (Entries.get?_eq_none_iff.mp hd)
      | some d =>
        have h₁ := hw.get? p.1 d hd
        rw [Entries.get?_of_mem hnow hp] at h₁
        exact ⟨d, rfl, Option.some.inj h₁⟩
    obtain ⟨dp, hdp, hep⟩ := horig p (List.mem_of_mem_filter hp)
    obtain ⟨dq, hdq, heq⟩ := horig q (List.mem_of_mem_filter hq)
    rw [hep, heq] at hpq
    exact hs.step m hm p.1 q.1 dp dq hdp hdq hpq
  have hmem : ∀ c ∈ Entries.keys ds, name ∈ namesOf names c → c ∈
      (now.filter fun d => ((Entries.get? names d.1).getD []).contains name).map Prod.fst := by
    intro c hc hname
    rw [← hw.keys] at hc
    obtain ⟨p, hp, rfl⟩ := List.mem_map.mp hc
    exact List.mem_map.mpr ⟨p, List.mem_filter.mpr ⟨hp, by simpa [namesOf] using hname⟩, rfl⟩
  exact related_of_chain hs.equiv hrel a (hmem a ha hna) b (hmem b hb hnb)

theorem apply_choose {now : Entries Json} {label : String} (h : label ∈ Entries.keys now) :
    (choose names now).apply label = ((namesOf names label).find? fun name =>
      (claims names now name).length = 1).getD label :=
  apply_map (fun label => ((namesOf names label).find? fun name =>
    (claims names now name).length = 1).getD label) h

theorem related_of_faithful (hR : Equivalence R) {m : Renaming}
    (hm : ∀ label ∈ Entries.keys ds, Faithful names ds R (m.apply label) label) :
    ∀ a ∈ Entries.keys ds, ∀ b ∈ Entries.keys ds, m.apply a = m.apply b → R a b := by
  intro a ha b hb hab
  have hfa := hm a ha
  rw [hab] at hfa
  exact hfa.related hR (hm b hb)

theorem faithful_choose (hs : Sharing ds R) {now : Entries Json} {m : Renaming}
    (hn : (Entries.keys ds).Nodup) (hw : Written ds now m)
    (hself : ∀ label ∈ Entries.keys ds, label ∈ namesOf names label)
    (hm : ∀ label ∈ Entries.keys ds, Faithful names ds R (m.apply label) label) :
    ∀ label ∈ Entries.keys ds, Faithful names ds R ((choose names now).apply label) label := by
  intro label h
  rw [apply_choose (hw.keys ▸ h)]
  cases hf : (namesOf names label).find? fun name => (claims names now name).length = 1 with
  | none => exact .self hs.equiv h (hself label h)
  | some name =>
    have hmem : name ∈ namesOf names label := List.mem_of_find?_eq_some hf
    have hone : (claims names now name).length = 1 := by simpa using List.find?_some hf
    have hall : ∀ a ∈ Entries.keys ds, name ∈ namesOf names a → R a label := fun a ha hna =>
      related_of_claims hs hn hw (related_of_faithful hs.equiv hm) hone ha h hna hmem
    exact
      { owned := ⟨label, h, hmem, hs.equiv.refl _⟩
        ofLabel := fun hk => hall name hk (hself name hk)
        ofName := fun _ => hall }

theorem faithful_choose_apply (hs : Sharing ds R) {now : Entries Json} {m : Renaming}
    (hn : (Entries.keys ds).Nodup) (hw : Written ds now m)
    (hself : ∀ label ∈ Entries.keys ds, label ∈ namesOf names label)
    (hm : ∀ label ∈ Entries.keys ds, Faithful names ds R (m.apply label) label) :
    ∀ label ∈ Entries.keys ds,
      Faithful names ds R ((choose names now).apply (m.apply label)) label := by
  intro label hl
  by_cases hlab : m.apply label ∈ Entries.keys ds
  · exact (faithful_choose hs hn hw hself hm _ hlab).transport hs.equiv ((hm label hl).ofLabel hlab)
  · have hkeys : m.apply label ∉ Entries.keys (choose names now) := by
      have he : Entries.keys (choose names now) = Entries.keys now := by
        simp [Entries.keys, choose, Function.comp_def]
      rw [he, hw.keys]
      exact hlab
    rw [apply_of_notMem hkeys]
    exact hm label hl

theorem related_of_refine (hs : Sharing ds R) (hn : (Entries.keys ds).Nodup)
    (hself : ∀ label ∈ Entries.keys ds, label ∈ namesOf names label)
    (hc : ∀ label d, Entries.get? ds label = some d → CitesOnly (· ∈ Entries.keys ds) d)
    (steps : Nat) (now before : Entries Json) (m : Renaming) (hw : Written ds now m)
    (hm : ∀ label ∈ Entries.keys ds, Faithful names ds R (m.apply label) label) :
    ∀ a ∈ Entries.keys ds, ∀ b ∈ Entries.keys ds,
      (refine names steps now before).apply a = (refine names steps now before).apply b →
        R a b := by
  induction steps generalizing now before m with
  | zero => exact related_of_faithful hs.equiv (faithful_choose hs hn hw hself hm)
  | succ steps ih =>
    rw [refine]
    split
    · exact related_of_faithful hs.equiv (faithful_choose hs hn hw hself hm)
    · let k : Renaming := ds.map fun p => (p.1, (choose names now).apply (m.apply p.1))
      have hk : ∀ label ∈ Entries.keys ds,
          k.apply label = (choose names now).apply (m.apply label) := fun label hl =>
        apply_map (fun label => (choose names now).apply (m.apply label)) hl
      have hwk : Written ds (Entries.mapValues (choose names now).data now) k := by
        refine ⟨by rw [Entries.keys_mapValues, hw.keys], fun label d hd => ?_⟩
        rw [Entries.get?_mapValues, hw.get? label d hd, Option.map_some,
          data_data (hc label d hd) hk]
      refine ih _ _ k hwk fun label hl => ?_
      rw [hk label hl]
      exact faithful_choose_apply hs hn hw hself hm label hl

/-- Definitions that get one name are equivalent. -/
theorem related_of_simplest (hs : Sharing ds R) (hn : (Entries.keys ds).Nodup)
    (hself : ∀ label ∈ Entries.keys ds, label ∈ namesOf names label)
    (hc : ∀ label d, Entries.get? ds label = some d → CitesOnly (· ∈ Entries.keys ds) d)
    {a b : String} (ha : a ∈ Entries.keys ds) (hb : b ∈ Entries.keys ds)
    (h : (simplest names ds).apply a = (simplest names ds).apply b) : R a b := by
  refine related_of_refine hs hn hself hc 100 ds ds [] ⟨rfl, fun label d hd => ?_⟩
    (fun label hl => ?_) a ha b hb h
  · rw [data_nil, hd]
  · exact .self hs.equiv hl (hself label hl)

end

end Renaming

/-! ## Equal definitions have alike values -/

/-- Whether no chain of references from a definition is as long as the number. -/
def Shallow (ds : Entries Json) : Nat → String → Prop
  | 0, _ => False
  | k + 1, label => ∀ d, Entries.get? ds label = some d →
    ∀ next, Mentions d next → Shallow ds k next

variable {ds : Entries Json} {rank : String → Nat}

theorem shallow_of_rank_lt (hd : Ranked ds rank) {k : Nat} {label : String}
    (h : rank label < k) : Shallow ds k label := by
  induction k generalizing label with
  | zero => omega
  | succ k ih =>
    intro d hx next hm
    have hk := (hd.cites label d hx).known_of_mentions hm
    exact ih (by omega)

/-- Whether two definitions have alike values, and equally long chains of references from them. -/
def Equivalent (ds : Entries Json) (env : String → Json) (a b : String) : Prop :=
  Json.Alike (env a) (env b) ∧ ∀ k, Shallow ds k a ↔ Shallow ds k b

theorem Shallow.transport {a b : String} {da db : Json} (ha : Entries.get? ds a = some da)
    (hb : Entries.get? ds b = some db)
    (h : ∀ next, Mentions db next → ∃ next', Mentions da next' ∧
      ∀ k, Shallow ds k next ↔ Shallow ds k next')
    {k : Nat} (hk : Shallow ds k a) : Shallow ds k b := by
  cases k with
  | zero => exact hk
  | succ k =>
    intro d hd next hn
    rw [hb] at hd
    cases hd
    obtain ⟨next', hn', hiff⟩ := h next hn
    exact (hiff k).mpr (hk da ha next' hn')

section Names
variable {env : String → Json} {m : Renaming}

theorem citesOnly_names {d : Json} (hd : CitesOnly (· ∈ Entries.keys ds) d) :
    CitesOnly (fun _ => True) (m.data d) := m.citesOnly_data hd fun _ _ => trivial

/-- A value for each new name is that of any label which goes by it. -/
theorem exists_values_of_names (hm : ∀ a ∈ Entries.keys ds, ∀ b ∈ Entries.keys ds,
    m.apply a = m.apply b → Json.Alike (env a) (env b)) :
    ∃ value : String → Json, ∀ label ∈ Entries.keys ds,
      Json.Alike (value (m.apply label)) (env label) := by
  classical
  refine ⟨fun name => if h : ∃ label ∈ Entries.keys ds, m.apply label = name then env h.choose
    else .null, fun label hl => ?_⟩
  have hex : ∃ label' ∈ Entries.keys ds, m.apply label' = m.apply label := ⟨label, hl, rfl⟩
  dsimp only
  rw [dif_pos hex]
  exact hm _ hex.choose_spec.1 label hl hex.choose_spec.2

/-- Definitions that are alike under new names have alike values, if labels of one name do. -/
theorem alike_resolved_of_names (hm : ∀ a ∈ Entries.keys ds, ∀ b ∈ Entries.keys ds,
    m.apply a = m.apply b → Json.Alike (env a) (env b)) {c d : Json}
    (hc : CitesOnly (· ∈ Entries.keys ds) c) (hd : CitesOnly (· ∈ Entries.keys ds) d)
    (h : Json.Alike (m.data c) (m.data d)) :
    Json.Alike (Json.resolved env c) (Json.resolved env d) := by
  obtain ⟨value, hvalue⟩ := exists_values_of_names hm
  have hresolved : ∀ {d : Json}, CitesOnly (· ∈ Entries.keys ds) d →
      Json.Alike (Json.resolved value (m.data d)) (Json.resolved env d) := by
    intro d hd
    rw [m.resolved_data hd]
    exact Json.alike_resolved hd hd (.refl _) hvalue
  refine (hresolved hc).symm.trans (.trans ?_ (hresolved hd))
  exact Json.alike_resolved (citesOnly_names hc) (citesOnly_names hd) h fun _ _ => .refl _

/-- What one of two definitions mentions that are alike under new names, the other one mentions
under the same name. -/
theorem exists_mentions_of_names {c d : Json} (hc : CitesOnly (· ∈ Entries.keys ds) c)
    (hd : CitesOnly (· ∈ Entries.keys ds) d) (h : Json.Alike (m.data c) (m.data d)) {next : String}
    (hn : Mentions c next) :
    ∃ next', Mentions d next' ∧ next ∈ Entries.keys ds ∧ next' ∈ Entries.keys ds ∧
      m.apply next = m.apply next' := by
  have hcm := (m.mentions_data hc).mpr ⟨next, hn, rfl⟩
  have hdm := mentions_of_alike (citesOnly_names hc) (citesOnly_names hd) h hcm
  obtain ⟨next', hn', happ⟩ := (m.mentions_data hd).mp hdm
  exact ⟨next', hn', hc.known_of_mentions hn, hd.known_of_mentions hn', happ.symm⟩

end Names

theorem sharing_equivalent {env : String → Json} (hs : Solves ds env)
    (hc : ∀ label d, Entries.get? ds label = some d → CitesOnly (· ∈ Entries.keys ds) d) :
    Renaming.Sharing ds (Equivalent ds env) where
  equiv :=
    { refl := fun a => ⟨.refl _, fun _ => .rfl⟩
      symm := fun h => ⟨h.1.symm, fun k => (h.2 k).symm⟩
      trans := fun h h' => ⟨h.1.trans h'.1, fun k => (h.2 k).trans (h'.2 k)⟩ }
  step := by
    intro m hm a b da db ha hb heq
    have hca := hc a da ha
    have hcb := hc b db hb
    have hma : CitesOnly (fun _ => True) (m.data da) := citesOnly_names hca
    have hmb : CitesOnly (fun _ => True) (m.data db) := citesOnly_names hcb
    have halike := Json.alike_of_equal hma.distinct hmb.distinct heq
    have hmention : ∀ {c d : Json}, CitesOnly (· ∈ Entries.keys ds) c →
        CitesOnly (· ∈ Entries.keys ds) d → Json.Alike (m.data c) (m.data d) →
        ∀ next, Mentions c next → ∃ next', Mentions d next' ∧
          ∀ k, Shallow ds k next ↔ Shallow ds k next' := by
      intro c d hc hd hcd next hn
      obtain ⟨next', hn', hk, hk', happ⟩ := exists_mentions_of_names hc hd hcd hn
      exact ⟨next', hn', (hm next hk next' hk' happ).2⟩
    refine ⟨?_, fun k => ⟨.transport ha hb (hmention hcb hca halike.symm),
      .transport hb ha (hmention hca hcb halike)⟩⟩
    rw [hs a da ha, hs b db hb]
    exact alike_resolved_of_names (fun a ha b hb hab => (hm a ha b hb hab).1) hca hcb halike

/-! ## Definitions under their names -/

section
variable {names : Entries (List String)}

theorem get?_definitions {n : Renaming} {name : String} {v : Json}
    (h : Entries.get? (n.definitions ds) name = some v) :
    ∃ p ∈ ds, n.apply p.1 = name ∧ v = n.data p.2 := by
  have hm : (name, v) ∈ ds.map fun p => (n.apply p.1, n.data p.2) := by
    rcases Entries.mem_of_mem_override (Entries.mem_of_get? h) with hm | hm
    · cases hm
    · exact hm
  obtain ⟨p, hp, hpv⟩ := List.mem_map.mp hm
  cases hpv
  exact ⟨p, hp, rfl, rfl⟩

theorem isSome_get?_definitions {n : Renaming} {label : String} (h : label ∈ Entries.keys ds) :
    (Entries.get? (n.definitions ds) (n.apply label)).isSome := by
  cases hv : Entries.get? (n.definitions ds) (n.apply label) with
  | some v => rfl
  | none =>
    have hk := Entries.get?_eq_none_iff.mp hv
    rw [Renaming.definitions, Entries.keys_ofList] at hk
    obtain ⟨p, hp, rfl⟩ := List.mem_map.mp h
    refine absurd (List.mem_eraseDups.mpr ?_) hk
    exact List.mem_map.mpr ⟨(n.apply p.1, n.data p.2), List.mem_map.mpr ⟨p, hp, rfl⟩, rfl⟩

theorem mem_keys_of_isSome {α : Type} {e : Entries α} {k : String}
    (h : (Entries.get? e k).isSome) : k ∈ Entries.keys e := by
  by_contra hk
  rw [Entries.get?_eq_none_iff.mpr hk] at h
  cases h

open Classical in
/-- How long chains of references are from the definition with a name, at least. -/
noncomputable def rankOf (ds : Entries Json) (n : Renaming) (name : String) : Nat :=
  if h : ∃ k, ∃ label ∈ Entries.keys ds, n.apply label = name ∧ Shallow ds k label
  then Nat.find h else 0

section Rank
variable {n : Renaming}

theorem rankOf_le {k : Nat} {label : String} (hl : label ∈ Entries.keys ds)
    (h : Shallow ds k label) : rankOf ds n (n.apply label) ≤ k := by
  classical
  have hex : ∃ k, ∃ label' ∈ Entries.keys ds, n.apply label' = n.apply label ∧
      Shallow ds k label' := ⟨k, label, hl, rfl, h⟩
  rw [rankOf, dif_pos hex]
  exact Nat.find_min' hex ⟨label, hl, rfl, h⟩

variable {env : String → Json} (hrel : ∀ a ∈ Entries.keys ds, ∀ b ∈ Entries.keys ds,
  n.apply a = n.apply b → Equivalent ds env a b)
include hrel

theorem shallow_rankOf (hd : Ranked ds rank) {label : String} (hl : label ∈ Entries.keys ds) :
    Shallow ds (rankOf ds n (n.apply label)) label := by
  classical
  have hex : ∃ k, ∃ label' ∈ Entries.keys ds, n.apply label' = n.apply label ∧
      Shallow ds k label' :=
    ⟨rank label + 1, label, hl, rfl, shallow_of_rank_lt hd (Nat.lt_succ_self _)⟩
  rw [rankOf, dif_pos hex]
  obtain ⟨label', hl', happ, hshallow⟩ := Nat.find_spec hex
  exact ((hrel label' hl' label hl happ).2 _).mp hshallow

theorem rankOf_lt_of_mentions (hd : Ranked ds rank) {label next : String} {d : Json}
    (hget : Entries.get? ds label = some d) (hm : Mentions d next)
    (hnext : next ∈ Entries.keys ds) :
    rankOf ds n (n.apply next) < rankOf ds n (n.apply label) := by
  have hshallow := shallow_rankOf hrel hd (Entries.mem_keys_of_mem (Entries.mem_of_get? hget))
  cases hk : rankOf ds n (n.apply label) with
  | zero =>
    rw [hk] at hshallow
    exact hshallow.elim
  | succ k =>
    rw [hk] at hshallow
    exact Nat.lt_succ_of_le (rankOf_le hnext (hshallow d hget next hm))

theorem ranked_definitions (hd : Ranked ds rank) (hn : (Entries.keys ds).Nodup) :
    Ranked (n.definitions ds) (rankOf ds n) := by
  refine ⟨fun name v hv => ?_, fun name v hv => ?_⟩
  · obtain ⟨p, hp, -, rfl⟩ := get?_definitions hv
    have hobj := hd.isObject p.1 p.2 (Entries.get?_of_mem hn hp)
    cases hj : p.2 with
    | obj e => rfl
    | _ => rw [hj] at hobj; cases hobj
  · obtain ⟨p, hp, rfl, rfl⟩ := get?_definitions hv
    have hget := Entries.get?_of_mem hn hp
    refine n.citesOnly_data (hd.cites p.1 p.2 hget).and_mentions fun next hnext => ?_
    have hk := mem_keys_of_isSome hnext.1.1
    exact ⟨isSome_get?_definitions hk, rankOf_lt_of_mentions hrel hd hget hnext.2 hk⟩

/-- Values of definitions under new names are alike the values that they had under their labels. -/
theorem alike_of_solves_definitions (hd : Ranked ds rank) (hs : Solves ds env)
    (hn : (Entries.keys ds).Nodup) {env' : String → Json}
    (hs' : Solves (n.definitions ds) env') (k : Nat) {label : String}
    (hl : label ∈ Entries.keys ds) (hk : rankOf ds n (n.apply label) < k) :
    Json.Alike (env' (n.apply label)) (env label) := by
  induction k generalizing label with
  | zero => omega
  | succ k ih =>
    obtain ⟨v, hv⟩ := Option.isSome_iff_exists.mp (isSome_get?_definitions (n := n) hl)
    obtain ⟨p, hp, happ, rfl⟩ := get?_definitions hv
    have hget := Entries.get?_of_mem hn hp
    have hlike := (hrel p.1 (Entries.mem_keys_of_mem hp) label hl happ).1
    have hcite := (hd.cites p.1 p.2 hget).and_mentions
    rw [hs' _ _ hv, n.resolved_data hcite]
    refine .trans ?_ hlike
    rw [hs p.1 p.2 hget]
    refine Json.alike_resolved hcite hcite (.refl _) fun next hnext => ?_
    have hnk := mem_keys_of_isSome hnext.1.1
    refine ih hnk ?_
    have hlt := rankOf_lt_of_mentions hrel hd hget hnext.2 hnk
    rw [happ] at hlt
    omega

end Rank

/-- Under their simplest names definitions can be solved again, and each has a value like the one
it had under its label. -/
theorem exists_solves_simplest {env : String → Json} (hd : Ranked ds rank) (hs : Solves ds env)
    (hn : (Entries.keys ds).Nodup)
    (hself : ∀ label ∈ Entries.keys ds, label ∈ Renaming.namesOf names label) :
    ∃ rank' env', Ranked ((Renaming.simplest names ds).definitions ds) rank' ∧
      Solves ((Renaming.simplest names ds).definitions ds) env' ∧
      ∀ label ∈ Entries.keys ds,
        Json.Alike (env' ((Renaming.simplest names ds).apply label)) (env label) := by
  have hc : ∀ label d, Entries.get? ds label = some d → CitesOnly (· ∈ Entries.keys ds) d :=
    fun label d hx => (hd.cites label d hx).mono fun _ hk => mem_keys_of_isSome hk.1
  have hrel : ∀ a ∈ Entries.keys ds, ∀ b ∈ Entries.keys ds,
      (Renaming.simplest names ds).apply a = (Renaming.simplest names ds).apply b →
        Equivalent ds env a b := fun a ha b hb =>
    Renaming.related_of_simplest (sharing_equivalent hs hc) hn hself hc ha hb
  have hranked := ranked_definitions hrel hd hn
  obtain ⟨env', hs'⟩ := exists_solves hranked
  exact ⟨_, env', hranked, hs', fun label hl =>
    alike_of_solves_definitions hrel hd hs hn hs' _ hl (Nat.lt_succ_self _)⟩

end

end Procedoc
