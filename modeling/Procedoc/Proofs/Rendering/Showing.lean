import Procedoc.Proofs.Rendering.Completing

/-! # What a record shows

The schema of a good layout, inlined, is the sketch of its record with values for references
(`Layout.Stands.shows`). -/
namespace Procedoc
set_option autoImplicit false
open ExceptT (result_bind)

variable {c : Catalog} {Δ : Outlines} {rank : Owner → Nat} {key : Key} {o : Record Shape}
  {l : Layout}

theorem Layout.Stands.written (hΔ : Δ.Fit c rank) (hl : l.Stands Δ rank key o)
    (hd : ∀ o' r, Δ o' = some (.record r) → Describes c r) :
    ∃ top s, (l.write c .input).result {} = (.ok (referenceTo top), s) ∧ s.Whole c Δ ∧
      s.label? key = some top := by
  obtain ⟨hdefs, hall⟩ := hl.follows_definitions hΔ fun o' r ho _ => hd o' r ho
  obtain ⟨u, hu, -⟩ := hdefs.exists_ok
  have htopKey : l.top.key? = some key := by
    obtain ⟨fields, htop, -⟩ := hl.good.top
    rw [htop]
    rfl
  rcases hr : (writeDefinitions c .input l.definitions).result {} with ⟨r, s₁⟩
  rw [hr] at hu hall
  simp only at hu hall
  subst hu
  have hfair : s₁.Fair c Δ := by
    have h := hdefs.fair
    rwa [hr] at h
  have hmentioned : ∀ k ∈ l.top.refs, inDefinitions l k := hl.good.closedTop
  obtain ⟨hwrite, hdefines⟩ := Shape.follows_definition hΔ htopKey (hl.good.agrees hl.known)
    hmentioned (fun o' r ho _ => hd o' r ho) (Nat.lt_succ_self (rank key.owner)) [] rfl hfair
  obtain ⟨e, he, heq⟩ := hwrite.exists_ok
  have hgrows := hwrite.grows
  have hlabels := hwrite.labels
  have hfair' := hwrite.fair
  rcases hw : (l.top.write c .input []).result s₁ with ⟨r, s⟩
  rw [hw] at he heq hdefines hgrows hlabels hfair'
  simp only at he heq
  subst he
  obtain ⟨top, htop, -⟩ := hdefines
  have he' := heq _ (s.uses_labelOr "")
  rw [Sheet.uses_labelOr s "" key top htop] at he'
  refine ⟨top, s, ?_, ⟨hfair', fun k hk => ?_⟩, htop⟩
  · rw [Layout.write, result_bind, hr]
    simp only [hw, he']
  · rcases hlabels k hk with h | h | h
    · rcases (hr ▸ hdefs.labels) k h with h | h | h
      · cases h
      · obtain ⟨p, hp, rfl⟩ := List.mem_map.mp h
        exact hgrows.defines (hall p hp)
      · exact hgrows.defines h
    · obtain ⟨p, hp, rfl⟩ := List.mem_map.mp h
      exact hgrows.defines (hall p hp)
    · exact h

theorem Sheet.Whole.definition (hΔ : Δ.Fit c rank) {s : Sheet} (hs : s.Whole c Δ) {label : String}
    {d : Json} (h : Entries.get? s.definitions label = some d) :
    ∃ e known, d = .obj e ∧ Entries.get? e "$ref" = none ∧ CitesOnly known d := by
  have hcites := (hs.complete hΔ).ranked.cites label d h
  obtain ⟨key, o, -, ho, hdraws⟩ := hs.drawn label d h
  cases o with
  | enumeration e =>
    exact ⟨_, _, hdraws, get?_of_overlay (overlay_of_inert (hΔ.enumerations _ _ ho)), hcites⟩
  | record r =>
    obtain ⟨ps, qs, -, -, heq⟩ := hdraws
    exact ⟨_, _, heq, get?_ref_recordEntries (hΔ.records _ _ ho).config qs, hcites⟩

theorem Sheet.Whole.exists_record {s : Sheet} (hs : s.Whole c Δ) {label : String}
    (hlabel : s.label? key = some label) (hknown : Δ key.owner = some (.record o)) :
    ∃ ps qs, (∀ label, s.Uses label → Shape.sketchFields c label o.config o.fields = .ok ps) ∧
      List.Forall₂ (Echoes s.definitions) ps qs ∧
      Entries.get? s.definitions label = some (.obj (recordEntries o.name o.doc o.config qs)) := by
  obtain ⟨name, hn, hsome⟩ := hs.closed key (by rw [hlabel]; rfl)
  rw [hlabel] at hn
  cases hn
  obtain ⟨d, hd⟩ := Option.isSome_iff_exists.mp hsome
  obtain ⟨key', o', hk', ho', hdraws⟩ := hs.drawn label d hd
  rw [hs.tagged.inj hk' hlabel, hknown] at ho'
  cases ho'
  obtain ⟨ps, qs, hps, hqs, rfl⟩ := hdraws
  exact ⟨ps, qs, hps, hqs, hd⟩

theorem Sheet.Whole.like (hΔ : Δ.Fit c rank) {s : Sheet} (hs : s.Whole c Δ) {env : String → Json}
    (henv : Solves s.definitions env) {known : String → Prop} {ps qs : List Property}
    (hps : ∀ p ∈ ps, p.Cites known) (h : List.Forall₂ (Echoes s.definitions) ps qs) :
    List.Forall₂ (Property.Like env env) ps qs := by
  induction h with
  | nil => exact .nil
  | cons hpq _ ih =>
    exact .cons (hpq.like henv (hps _ (List.mem_cons_self ..)) fun label d hd => hs.definition hΔ hd)
      (ih fun p hp => hps p (List.mem_cons_of_mem _ hp))

/-- Whether inlining leaves entries of the schema of a record: `ps` are the properties under the
labels of a sheet, and `env` are values for these labels. -/
structure Shows (c : Catalog) (Δ : Outlines) (o : Record Shape) (s : Sheet) (env : String → Json)
    (ps : List Property) (r : Entries Json) : Prop where
  whole : s.Whole c Δ
  solves : Solves s.definitions env
  sketch : ∀ label, s.Uses label → Shape.sketchFields c label o.config o.fields = .ok ps
  distinct : Json.Distinct (.obj r)
  alike : Json.Alike (.obj r)
    (Json.resolved env (.obj (recordEntries o.name o.doc o.config ps)))
  properties : ∃ shown, Entries.get? r "properties" = some (.obj shown) ∧
    Entries.keys shown = Entries.keys (propertiesOf ps)

theorem get?_recordEntries {name : String} {doc : Option String} {config : Config}
    (hc : InertConfig config) (ps : List Property) (k : String) :
    Entries.get? (recordEntries name doc config ps) k =
      (Entries.get? (Config.schemaEntries config) k).or
        (Entries.get? (("properties", .obj (propertiesOf ps)) ::
          recordRest name doc config (requiredOf ps)) k) := by
  rw [recordEntries_eq, Entries.get?_override _ (citesOnly_obj.mp (inert_schemaEntries hc)).1]

theorem get?_properties_recordEntries {name : String} {doc : Option String} {config : Config}
    (hc : InertConfig config)
    (hprops : Entries.get? (Config.schemaEntries config) "properties" = none)
    (ps : List Property) : Entries.get? (recordEntries name doc config ps) "properties" =
      some (.obj (propertiesOf ps)) := by
  rw [get?_recordEntries hc, hprops]
  rfl

theorem get?_defs_recordEntries {name : String} {doc : Option String} {config : Config}
    (hc : InertConfig config) (hdefs : Entries.get? (Config.schemaEntries config) "$defs" = none)
    (ps : List Property) : Entries.get? (recordEntries name doc config ps) "$defs" = none := by
  rw [get?_recordEntries hc, hdefs, Option.none_or, Entries.get?_eq_none_iff]
  have hne : "$defs" ≠ "properties" := by decide
  exact List.not_mem_cons_of_ne_of_not_mem hne (notMem_keys_recordRest _ (by decide))

/-- A good layout has a schema, and inlining leaves of it what its record shows. -/
theorem Layout.Stands.shows (hΔ : Δ.Fit c rank) (hl : l.Stands Δ rank key o)
    (hd : ∀ o' r, Δ o' = some (.record r) → Describes c r)
    (hdefs : Entries.get? (Config.schemaEntries o.config) "$defs" = none)
    (hprops : Entries.get? (Config.schemaEntries o.config) "properties" = none) :
    ∃ s env ps e r, l.schema c .input = .ok e ∧ (inlined e).outcome = .ok (.obj r) ∧
      Shows c Δ o s env ps r := by
  obtain ⟨top, s, hw, hs, htop⟩ := hl.written hΔ hd
  have hq := hΔ.records _ _ hl.known
  obtain ⟨ps, qs, hps, hqs, hdtop⟩ := hs.exists_record htop hl.known
  have hcites := s.cites_sketch hq hps
  have hcites' := forall_of_forall₂ hqs hcites fun p q hpq hp => hpq.cites hp
  -- the schema is finished, and inlined
  have hcomplete := hs.complete hΔ
  obtain ⟨env, henv⟩ := exists_solves hcomplete.ranked
  have href : Entries.get? (recordEntries o.name o.doc o.config qs) "$ref" = none :=
    get?_ref_recordEntries hq.config qs
  obtain ⟨inUse, hfin, huse⟩ := finish_isOk hcomplete hdtop href
  obtain ⟨r, hr, hdistinct, halike, hkeys⟩ := outcome_inlined_finished huse.nodup huse.ranked
    (fun label d h => henv label d (huse.get? label d h)) (huse.named hcomplete) huse.cites href
    (get?_defs_recordEntries hq.config hdefs qs)
  have hschema : l.schema c .input =
      .ok (finished s.names inUse (recordEntries o.name o.doc o.config qs)) := by
    have hrun : (l.write c .input).run {} = (.ok (referenceTo top), s) := hw
    rw [Layout.schema, hrun]
    exact hfin
  refine ⟨s, env, ps, _, r, hschema, hr, hs, henv, hps, hdistinct, halike.trans ?_, ?_⟩
  · exact (alike_recordEntries hq.name hq.doc hq.config (fun p hp => (hcites p hp).1)
      (hs.like hΔ henv hcites hqs)).symm
  · obtain ⟨shown, hshown, heq⟩ := hkeys _ (get?_properties_recordEntries hq.config hprops qs)
      (get?_ref_propertiesOf fun p hp => (hcites' p hp).1.word)
    refine ⟨shown, hshown, heq.trans ?_⟩
    rw [keys_propertiesOf, keys_propertiesOf, map_name_of_echoes hqs]

end Procedoc
