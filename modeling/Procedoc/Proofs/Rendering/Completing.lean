import Procedoc.Proofs.Rendering.Following

/-! # Whole layouts on a sheet

A sheet is whole when each reference on it leads to a definition of lower rank, and each definition
is the sketch of what its owner looks like.  Writing the definitions of a layout keeps a sheet whole
(`Layout.Stands.follows_definitions`), and so does writing its top. -/
namespace Procedoc
set_option autoImplicit false
open ExceptT (result_pure result_modify result_bind)

variable {c : Catalog} {Δ : Outlines} {rank : Owner → Nat} {mentioned : Key → Prop} {s : Sheet}

namespace Shape

theorem follows_definition (hΔ : Δ.Fit c rank) {t : Shape} {key : Key} (hkey : t.key? = some key)
    (ha : t.Agrees Δ) (hm : ∀ k ∈ t.refs, mentioned k) {k : Nat}
    (hd : ∀ o r, Δ o = some (.record r) → rank o < k → Describes c r) (hk : rank key.owner < k)
    (config : Config) (hside : sideIn config .input = .input) (hs : s.Fair c Δ) :
    Follows c Δ ⟨rank, k, mentioned⟩ s (t.write c .input config)
      (fun label => .ok (referenceTo (label key))) (fun _ => Eq) ∧
      ((t.write c .input config).result s).2.Defines key := by
  cases t with
  | enumeration key' e =>
    cases hkey
    rw [Agrees] at ha
    exact follows_enumeration hΔ ha hk hside hs
  | record key' r =>
    cases hkey
    obtain ⟨name, doc, own, fields⟩ := r
    rw [Agrees] at ha
    rw [refs_record] at hm
    have hq := hΔ.records _ _ ha.1
    exact follows_record hΔ ha.1 hk (hd _ _ ha.1 hk) hside hs
      (follows_writeFields hΔ fields ha.2 hm (rank key.owner) own s
        (fun o r ho hlt => hd o r ho (Nat.lt_trans hlt hk))
        (fun f hf => by
          have hfalls := hΔ.falls _ _ ha.1 (foldedField f) (List.mem_map_of_mem hf)
          rwa [foldedField, folded_folded] at hfalls)
        hq.side hq.config (fun f hf => hq.fields (foldedField f) (List.mem_map_of_mem hf)) hs)
  | _ => cases hkey

end Shape

/-! ## Definitions -/

theorem Follows.exists_ok {α β : Type} {B : Bounds} {x : Writing α} {g : (Key → String) → β}
    {rel : Entries Json → β → α → Prop} (h : Follows c Δ B s x (fun label => .ok (g label)) rel) :
    ∃ a, (x.result s).1 = .ok a ∧ ∀ label, (x.result s).2.Uses label →
      rel (x.result s).2.definitions (g label) a := by
  obtain ⟨b, hb, hmatch⟩ := h.eq
  have hb' := hb _ (Sheet.uses_labelOr _ "")
  subst hb'
  cases hr : (x.result s).1 with
  | error o =>
    rw [hr] at hmatch
    cases hmatch
  | ok a =>
    refine ⟨a, rfl, fun label hl => ?_⟩
    rw [hr] at hmatch
    cases hmatch with
    | ok h => rwa [Except.ok.inj (hb label hl)]

theorem follows_writeDefinitions (hΔ : Δ.Fit c rank) {k : Nat}
    (hd : ∀ o r, Δ o = some (.record r) → rank o < k → Describes c r) {ds : Definitions}
    (hds : ∀ p ∈ ds, p.2.key? = some p.1 ∧ p.2.Agrees Δ ∧ rank p.1.owner < k ∧
      ∀ key ∈ p.2.refs, mentioned key) (hs : s.Fair c Δ) :
    Follows c Δ ⟨rank, k, mentioned⟩ s (writeDefinitions c .input ds) (fun _ => .ok ())
      (fun _ _ _ => True) ∧
      ∀ p ∈ ds, ((writeDefinitions c .input ds).result s).2.Defines p.1 := by
  induction ds generalizing s with
  | nil => exact ⟨.pure hs trivial, nofun⟩
  | cons p rest ih =>
    obtain ⟨key, t⟩ := p
    obtain ⟨hkey, ha, hk, hm⟩ := hds (key, t) (List.mem_cons_self ..)
    obtain ⟨hwrite, hdefines⟩ :=
      Shape.follows_definition hΔ hkey ha hm hd hk [] rfl hs
    obtain ⟨e, he, -⟩ := hwrite.exists_ok
    obtain ⟨hrest, hall⟩ := ih (fun q hq => hds q (List.mem_cons_of_mem _ hq)) hwrite.fair
    have hres : (writeDefinitions c .input ((key, t) :: rest)).result s =
        (writeDefinitions c .input rest).result ((t.write c .input []).result s).2 := by
      have hattempt : (Writing.attempt (t.write c .input [])).result s =
          (.ok (some e), ((t.write c .input []).result s).2) := by
        rw [Writing.result_attempt]
        rcases hr : (t.write c .input []).result s with ⟨r, s'⟩
        rw [hr] at he
        simp only at he
        subst he
        rfl
      rw [writeDefinitions, result_bind, hattempt]
    have hboth : (writeDefinitions c .input ((key, t) :: rest)).result s =
        (do
          let _ ← t.write c .input []
          writeDefinitions c .input rest : Writing Unit).result s := by
      rw [hres, result_bind]
      rcases hr : (t.write c .input []).result s with ⟨r, s'⟩
      rw [hr] at he
      simp only at he
      subst he
      rfl
    refine ⟨Follows.of_result ?_ hboth, fun q hq => ?_⟩
    · exact hwrite.bind (g := fun _ _ => .ok ()) fun s' _ _ hs' _ _ _ =>
        (ih (fun q hq => hds q (List.mem_cons_of_mem _ hq)) hs').1
    · rw [hres]
      rcases List.mem_cons.mp hq with rfl | hq
      · exact hrest.grows.defines hdefines
      · exact hall q hq

/-! ## Layouts -/

noncomputable def Sheet.rankOf (s : Sheet) (rank : Owner → Nat) (name : String) : Nat :=
  open Classical in if h : ∃ key, s.label? key = some name then rank h.choose.owner else 0

theorem Sheet.Tagged.rankOf_eq (hs : s.Tagged) {key : Key} {name : String}
    (h : s.label? key = some name) : s.rankOf rank name = rank key.owner := by
  have hex : ∃ key, s.label? key = some name := ⟨key, h⟩
  rw [rankOf, dif_pos hex, hs.inj hex.choose_spec h]

/-- Whether everything that was mentioned is defined. -/
structure Sheet.Whole (c : Catalog) (Δ : Outlines) (s : Sheet) : Prop extends s.Fair c Δ where
  closed : ∀ key, (s.label? key).isSome → s.Defines key

def fieldKeys (fields : List (Field Shape)) : List Key :=
  fields.flatMap fun f => f.type.folded.refs

theorem mem_fieldKeys {fields : List (Field Shape)} {f : Field Shape} (hf : f ∈ fields) :
    ∀ key ∈ f.type.folded.refs, key ∈ fieldKeys fields :=
  fun _ hk => List.mem_flatMap.mpr ⟨f, hf, hk⟩

/-- What the properties of a record cite are labels on the sheet. -/
theorem Sheet.cites_sketch (s : Sheet) {r : Record Shape} (hq : InertRecord c r)
    {ps : List Property}
    (hps : ∀ label, s.Uses label → Shape.sketchFields c label r.config r.fields = .ok ps) :
    ∀ p ∈ ps, p.Cites fun name => ∃ key, key ∈ fieldKeys r.fields ∧ s.label? key = some name := by
  intro p hp
  have hcite := fun label hl => Shape.cites_sketchFields (K := fun key => key ∈ fieldKeys r.fields)
    hq.config hq.fields (fun f hf => mem_fieldKeys hf) (hps label hl) p hp
  exact ⟨(hcite _ (s.uses_labelOr "")).1, s.citesOnly_labels fun label hl => (hcite label hl).2⟩

theorem forall_of_forall₂ {α β : Type} {R : α → β → Prop} {P : α → Prop} {Q : β → Prop}
    {xs : List α} {ys : List β} (h : List.Forall₂ R xs ys) (hx : ∀ x ∈ xs, P x)
    (hPQ : ∀ x y, R x y → P x → Q y) : ∀ y ∈ ys, Q y := by
  intro y hy
  obtain ⟨x, hmem, hR⟩ := Shaping.exists_of_forall₂ h.flip hy
  exact hPQ x y hR (hx x hmem)

theorem Sheet.Whole.complete (hΔ : Δ.Fit c rank) (hs : s.Whole c Δ) :
    s.Complete (s.rankOf rank) where
  nodup := hs.nodup
  unbroken := hs.unbroken
  named := by
    intro name hm
    obtain ⟨p, hp, rfl⟩ := List.mem_map.mp hm
    obtain ⟨key, o, hk, -⟩ := hs.drawn p.1 p.2 (Entries.get?_of_mem hs.nodup hp)
    exact hs.tagged.named key p.1 hk
  ranked := by
    refine ⟨fun name d hd => ?_, fun name d hd => ?_⟩
    · obtain ⟨key, o, -, -, hdraws⟩ := hs.drawn name d hd
      cases o with
      | enumeration e =>
        rw [hdraws]
        rfl
      | record r =>
        obtain ⟨ps, qs, -, -, heq⟩ := hdraws
        rw [heq]
        rfl
    · obtain ⟨key, o, hk, ho, hdraws⟩ := hs.drawn name d hd
      cases o with
      | enumeration e =>
        rw [hdraws]
        exact .of_inert (hΔ.enumerations _ _ ho)
      | record r =>
        obtain ⟨ps, qs, hps, hqs, heq⟩ := hdraws
        have hq := hΔ.records _ _ ho
        rw [heq]
        refine (citesOnly_recordEntries hq.name hq.doc hq.config (forall_of_forall₂ hqs
          (s.cites_sketch hq hps) fun p q hpq hp => hpq.cites hp)).mono ?_
        rintro name' ⟨key', hmem, hk'⟩
        obtain ⟨f, hf, href⟩ := List.mem_flatMap.mp hmem
        obtain ⟨n, hn, hsome⟩ := hs.closed key' (by rw [hk']; rfl)
        rw [hk'] at hn
        cases hn
        refine ⟨hsome, ?_⟩
        rw [hs.tagged.rankOf_eq hk, hs.tagged.rankOf_eq hk']
        exact hΔ.falls _ _ ho f hf key' href

theorem fair_empty (c : Catalog) (Δ : Outlines) : Sheet.Fair c Δ {} :=
  ⟨Sheet.tagged_empty, .nil, rfl, nofun⟩

/-- A layout whose definitions are below its top, on outlines that know its top. -/
structure Layout.Stands (Δ : Outlines) (rank : Owner → Nat) (key : Key) (o : Record Shape)
    (l : Layout) : Prop where
  good : l.Good Δ key o
  known : Δ key.owner = some (.record o)
  below : ∀ p ∈ l.definitions, rank p.1.owner < rank key.owner

namespace Layout.Stands
variable {key : Key} {o : Record Shape} {l : Layout}

def inDefinitions (l : Layout) (key : Key) : Prop := key ∈ l.definitions.map Prod.fst

theorem follows_definitions (hΔ : Δ.Fit c rank) (hl : l.Stands Δ rank key o)
    (hd : ∀ o' r, Δ o' = some (.record r) → rank o' < rank key.owner → Describes c r) :
    Follows c Δ ⟨rank, rank key.owner, inDefinitions l⟩ {} (writeDefinitions c .input l.definitions)
      (fun _ => .ok ()) (fun _ _ _ => True) ∧
      ∀ p ∈ l.definitions,
        ((writeDefinitions c .input l.definitions).result {}).2.Defines p.1 := by
  refine follows_writeDefinitions hΔ hd (fun p hp => ?_) (fair_empty c Δ)
  obtain ⟨hkey, ha⟩ := hl.good.defines p hp
  exact ⟨hkey, ha, hl.below p hp, hl.good.closed p hp⟩

end Layout.Stands
end Procedoc
