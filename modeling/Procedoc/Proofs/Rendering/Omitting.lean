import Procedoc.Proofs.Rendering.Matching

/-! # Schemas without some properties

`withoutProperties` takes properties out of the schema of an object.  What a record shows without
some fields is what it shows with all of them, without the properties that these fields make
(`Shows.omit`). -/
namespace Procedoc
set_option autoImplicit false

/-- What stays under a key of the schema of an object without some properties: they are not
described and not required, and nothing is said of what is required if that is nothing. -/
def withoutNames (names : List String) (key : String) (j : Json) : Option Json :=
  match j with
  | .obj shown => some (.obj (if key = "properties" then Entries.withoutAll shown names else shown))
  | .arr items =>
    if key = "required" then
      let left := items.filter fun j => !(names.map Json.str).contains j
      if left.isEmpty then none else some (.arr left)
    else some (.arr items)
  | j => some j

def withoutProperties (names : List String) (e : Entries Json) : Entries Json :=
  e.filterMap fun p => (withoutNames names p.1 p.2).map fun j => (p.1, j)

variable {names : List String}

/-! ## Entries without some properties -/

theorem keys_withoutProperties (names : List String) (e : Entries Json) :
    (Entries.keys (withoutProperties names e)).Sublist (Entries.keys e) := by
  refine Entries.keys_filterMap_sublist (fun p q hq => ?_) e
  obtain ⟨j, -, rfl⟩ := Option.map_eq_some_iff.mp hq
  rfl

theorem get?_withoutProperties {e : Entries Json} (hn : (Entries.keys e).Nodup) (k : String) :
    Entries.get? (withoutProperties names e) k =
      (Entries.get? e k).bind (withoutNames names k) := by
  induction e with
  | nil => rfl
  | cons p rest ih =>
    have hn' := List.nodup_cons.mp hn
    rw [withoutProperties, List.filterMap_cons, Entries.get?]
    by_cases hk : p.1 = k
    · subst hk
      rw [if_pos rfl, Option.bind_some]
      cases withoutNames names p.1 p.2 with
      | some j => simp [Entries.get?]
      | none =>
        refine Entries.get?_eq_none_iff.mpr fun hm => hn'.1 ?_
        exact (keys_withoutProperties names rest).subset hm
    · rw [if_neg hk, ← ih hn'.2]
      cases withoutNames names p.1 p.2 with
      | some j => simp [Entries.get?, hk, withoutProperties]
      | none => rfl

theorem Json.Alike.eq_str_iff {a b : Json} (h : Json.Alike a b) (s : String) :
    a = .str s ↔ b = .str s := by
  have hf := h.face_eq
  cases a <;> cases b <;> simp_all [Json.face]

theorem contains_str_of_alike {a b : Json} (h : Json.Alike a b) (names : List String) :
    (names.map Json.str).contains a = (names.map Json.str).contains b := by
  rw [Bool.eq_iff_iff, List.contains_iff_mem, List.contains_iff_mem, List.mem_map, List.mem_map]
  constructor
  · rintro ⟨s, hs, rfl⟩
    exact ⟨s, hs, ((h.eq_str_iff s).mp rfl).symm⟩
  · rintro ⟨s, hs, rfl⟩
    exact ⟨s, hs, ((h.eq_str_iff s).mpr rfl).symm⟩

theorem forall₂_filter_names (names : List String) {xs ys : List Json} (h : List.Forall₂ Json.Alike xs ys) :
    List.Forall₂ Json.Alike (xs.filter fun j => !(names.map Json.str).contains j)
      (ys.filter fun j => !(names.map Json.str).contains j) := by
  induction h with
  | nil => exact .nil
  | cons hxy _ ih =>
    rw [List.filter_cons, List.filter_cons, contains_str_of_alike hxy names]
    split
    · exact .cons hxy ih
    · exact ih

theorem alike_withoutNames {a b : Json} (h : Json.Alike a b) (key : String) :
    Option.Rel Json.Alike (withoutNames names key a) (withoutNames names key b) := by
  have hf := h.face_eq
  cases a with
  | obj xs =>
    obtain ⟨ys, rfl, hxy⟩ := h.exists_obj
    rw [withoutNames, withoutNames]
    refine .some (Json.alike_obj.mpr fun k => ?_)
    by_cases hp : key = "properties"
    · rw [if_pos hp, if_pos hp, Entries.get?_withoutAll, Entries.get?_withoutAll]
      split
      · exact .none
      · exact hxy k
    · rw [if_neg hp, if_neg hp]
      exact hxy k
  | arr xs =>
    obtain ⟨ys, rfl, hxy⟩ := h.exists_arr
    rw [withoutNames, withoutNames]
    by_cases hp : key = "required"
    · rw [if_pos hp, if_pos hp]
      have hleft := forall₂_filter_names names hxy
      dsimp only
      generalize xs.filter _ = xs' at hleft ⊢
      generalize ys.filter _ = ys' at hleft ⊢
      cases hleft with
      | nil => exact .none
      | cons hxy hrest => exact .some (Json.alike_arr.mpr (.cons hxy hrest))
    · rw [if_neg hp, if_neg hp]
      exact .some h
  | _ => cases b <;> first | exact .some h | cases hf

theorem alike_withoutProperties {e e' : Entries Json} (hn : (Entries.keys e).Nodup)
    (hn' : (Entries.keys e').Nodup) (h : Json.Alike (.obj e) (.obj e')) :
    Json.Alike (.obj (withoutProperties names e)) (.obj (withoutProperties names e')) := by
  refine Json.alike_obj.mpr fun k => ?_
  rw [get?_withoutProperties hn, get?_withoutProperties hn']
  exact rel_bind (Json.alike_obj.mp h k) fun _ _ _ _ hxy => alike_withoutNames hxy k

/-! ## Records without some properties -/

theorem withoutNames_of_ne (names : List String) {key : String} (hp : key ≠ "properties") (hr : key ≠ "required")
    (j : Json) : withoutNames names key j = some j := by
  cases j with
  | obj shown => rw [withoutNames, if_neg hp]
  | arr items => rw [withoutNames, if_neg hr]
  | _ => rfl

theorem Entries.override_of_nodup {α : Type} {base top : Entries α}
    (h : (keys (base ++ top)).Nodup) : override base top = base ++ top := by
  induction top generalizing base with
  | nil => rw [override_nil, List.append_nil]
  | cons p rest ih =>
    have hkeys : keys (base ++ p :: rest) = keys base ++ p.1 :: keys rest := by simp [keys]
    have hnot : p.1 ∉ keys base := fun hm =>
      List.disjoint_of_nodup_append (hkeys ▸ h) hm (List.mem_cons_self ..)
    have hput : override base (p :: rest) = override (base ++ [p]) rest := by
      change override (put base p.1 p.2) rest = _
      rw [put_of_notMem hnot]
    rw [hput, ih (by simpa [keys] using h), List.append_assoc, List.singleton_append]

variable {c : Catalog} {config : Config} {name : String} {doc : Option String}
  {ps : List Property}

theorem propertiesOf_of_nodup (h : (ps.map Property.name).Nodup) :
    propertiesOf ps = ps.map fun p => (p.name, .obj p.schema) := by
  have hkeys : Entries.keys (ps.map fun p => (p.name, Json.obj p.schema)) =
      ps.map Property.name := by
    simp [Entries.keys]
  rw [propertiesOf, Entries.ofList, Entries.override_of_nodup (by rwa [List.nil_append, hkeys]),
    List.nil_append]

def leaving (names : List String) (ps : List Property) : List Property :=
  ps.filter fun p => !names.contains p.name

theorem propertiesOf_leaving (h : (ps.map Property.name).Nodup) :
    propertiesOf (leaving names ps) = Entries.withoutAll (propertiesOf ps) names := by
  have h' : ((leaving names ps).map Property.name).Nodup :=
    h.sublist (List.Sublist.map _ List.filter_sublist)
  rw [propertiesOf_of_nodup h, propertiesOf_of_nodup h', leaving, Entries.withoutAll,
    List.filter_map]
  rfl

theorem requiredOf_leaving :
    requiredOf (leaving names ps) = (requiredOf ps).filter fun n => !names.contains n := by
  rw [requiredOf, requiredOf, leaving, List.filter_filter, List.filter_map, List.filter_filter]
  congr 1
  exact List.filter_congr fun p _ => Bool.and_comm ..

theorem withoutNames_strings (required : List String) :
    withoutNames names "required" (.strings required) =
      let left := required.filter fun n => !names.contains n
      if left.isEmpty then none else some (.strings left) := by
  have hleft : (required.map Json.str).filter (fun j => !(names.map Json.str).contains j) =
      (required.filter fun n => !names.contains n).map Json.str := by
    rw [List.filter_map]
    exact congrArg _ (List.filter_congr fun n _ => by simp)
  rw [Json.strings, withoutNames, if_pos rfl, hleft]
  dsimp only
  rw [List.isEmpty_map]
  rfl

theorem get?_recordRest (required : List String) (k : String) :
    Entries.get? (recordRest name doc config required) k =
      if k = "required" then if required.isEmpty then none else some (.strings required)
      else Entries.get? (recordRest name doc config []) k := by
  have hrest : recordRest name doc config required =
      (if required.isEmpty then [] else [("required", .strings required)]) ++
        recordRest name doc config [] := by
    simp [recordRest]
  rw [hrest]
  by_cases hr : required.isEmpty = true
  · rw [if_pos hr, if_pos hr, List.nil_append]
    by_cases hk : k = "required"
    · subst hk
      rw [if_pos rfl, Entries.get?_eq_none_iff]
      intro hm
      rw [recordRest] at hm
      cases h₁ : Text.describedBy doc <;> cases h₂ : Config.letsInOthers? config <;>
        simp [h₁, h₂, Entries.keys] at hm
    · rw [if_neg hk]
  · rw [if_neg hr, if_neg hr, List.singleton_append, Entries.get?]
    by_cases hk : k = "required"
    · rw [if_pos hk.symm, if_pos hk]
    · rw [if_neg (Ne.symm hk), if_neg hk]

theorem resolved_strings (env : String → Json) (texts : List String) :
    Json.resolved env (.strings texts) = .strings texts := by
  rw [Json.strings, Json.resolved_arr, List.map_map]
  exact congrArg Json.arr (List.map_congr_left fun s _ => Json.resolved_scalar nofun nofun)

theorem get?_resolved_leaving (env : String → Json) (hc : InertConfig config)
    (hprops : Entries.get? (Config.schemaEntries config) "properties" = none)
    (hreq : Entries.get? (Config.schemaEntries config) "required" = none)
    (hn : (ps.map Property.name).Nodup) (href : ∀ p ∈ ps, p.name ≠ "$ref") (k : String) :
    (Entries.get? (recordEntries name doc config (leaving names ps)) k).map (Json.resolved env) =
      ((Entries.get? (recordEntries name doc config ps) k).map (Json.resolved env)).bind
        (withoutNames names k) := by
  have href' : ∀ p ∈ leaving names ps, p.name ≠ "$ref" :=
    fun p hp => href p (List.mem_filter.mp hp).1
  rw [get?_recordEntries hc, get?_recordEntries hc, Entries.get?, Entries.get?]
  by_cases hp : k = "properties"
  · subst hp
    rw [hprops, if_pos rfl, if_pos rfl, Option.none_or, Option.none_or, Option.map_some,
      Option.map_some, Option.bind_some, Json.resolved_plain (get?_ref_propertiesOf href),
      Json.resolved_plain (get?_ref_propertiesOf href'),
      withoutNames, if_pos rfl, propertiesOf_leaving hn]
    rw [Entries.withoutAll, Entries.mapValues_filter _ fun k => !names.contains k]
    rfl
  · rw [if_neg (Ne.symm hp), if_neg (Ne.symm hp)]
    by_cases hr : k = "required"
    · subst hr
      rw [hreq, Option.none_or, Option.none_or, get?_recordRest, if_pos rfl,
        get?_recordRest (requiredOf ps), if_pos rfl, requiredOf_leaving]
      by_cases he : (requiredOf ps).isEmpty = true
      · rw [List.isEmpty_iff.mp he]
        rfl
      · rw [if_neg he, Option.map_some, Option.bind_some, resolved_strings, withoutNames_strings]
        dsimp only
        split
        · rfl
        · rw [Option.map_some, resolved_strings]
    · rw [get?_recordRest (requiredOf (leaving names ps)), get?_recordRest (requiredOf ps),
        if_neg hr, if_neg hr, funext (withoutNames_of_ne names hp hr), Option.bind_fun_some]

/-! ## Fields left out -/

variable {Δ Δ' : Outlines} {rank : Owner → Nat} {o : Record Shape} {s s' : Sheet}
  {env env' : String → Json} {r r' : Entries Json} {qs : List Property}

def propertyNames {α : Type} (config : Config) (fields : List (Field α)) : List String :=
  fields.map (propertyName .input config)

theorem name_of_makes {f : Field Shape} {p : Property} (h : Makes c config s f p) :
    p.name = propertyName .input config f := by
  have hp := h _ (s.uses_labelOr "")
  obtain ⟨shown, -, hp⟩ := exists_of_bind_eq_ok hp
  obtain ⟨schema, -, hp⟩ := exists_of_bind_eq_ok hp
  cases hp
  rfl

theorem map_name_of_makes {fields : List (Field Shape)}
    (h : List.Forall₂ (Makes c config s) fields ps) :
    ps.map Property.name = propertyNames config fields := by
  induction h with
  | nil => rfl
  | cons hfp _ ih =>
    rw [List.map_cons, ih, name_of_makes hfp]
    rfl

/-- What some fields make of which those with certain names are left out. -/
theorem makes_leaving {fields : List (Field Shape)}
    (h : List.Forall₂ (Makes c config s) fields ps) (names : List String) :
    List.Forall₂ (Makes c config s)
      (fields.filter fun f => !names.contains (propertyName .input config f))
      (leaving names ps) := by
  induction h with
  | nil => exact .nil
  | cons hfp _ ih =>
    rw [leaving, List.filter_cons, List.filter_cons, name_of_makes hfp]
    split
    · exact .cons hfp ih
    · exact ih

theorem Shows.makes (h : Shows c Δ o s env ps r) :
    List.Forall₂ (Makes c o.config s) o.fields ps := makes_of_sketchFields h.sketch

theorem Shows.cites (ho : InertRecord c o) (h : Shows c Δ o s env ps r) :
    ∀ p ∈ ps, p.Cites fun _ => True := by
  intro p hp
  obtain ⟨f, hf, hfp⟩ := Shaping.exists_of_forall₂ h.makes.flip hp
  have hcites := Makes.cites hfp ho.config (ho.fields f hf)
  exact ⟨hcites.1, hcites.2.mono fun _ _ => trivial⟩

/-- What is left of what a record shows, without some properties, is what the other properties
make. -/
theorem Shows.alike_leaving (ho : InertRecord c o) (h : Shows c Δ o s env ps r)
    (hn : (propertyNames o.config o.fields).Nodup)
    (hprops : Entries.get? (Config.schemaEntries o.config) "properties" = none)
    (hreq : Entries.get? (Config.schemaEntries o.config) "required" = none)
    (names : List String) :
    Json.Alike (.obj (withoutProperties names r))
      (Json.resolved env (.obj (recordEntries o.name o.doc o.config (leaving names ps)))) := by
  have hps := map_name_of_makes h.makes
  have halike := h.alike
  rw [Json.resolved_plain (get?_ref_recordEntries ho.config ps)] at halike
  have hnodup : (Entries.keys (Entries.mapValues (Json.resolved env)
      (recordEntries o.name o.doc o.config ps))).Nodup := by
    rw [Entries.keys_mapValues]
    exact (citesOnly_obj.mp
      (citesOnly_recordEntries ho.name ho.doc ho.config (h.cites ho))).1
  refine (alike_withoutProperties (Json.distinct_obj.mp h.distinct).1 hnodup halike).trans ?_
  rw [Json.resolved_plain (get?_ref_recordEntries ho.config (leaving names ps)), Json.alike_obj]
  intro k
  rw [get?_withoutProperties hnodup, Entries.get?_mapValues, Entries.get?_mapValues,
    get?_resolved_leaving env ho.config hprops hreq (hps ▸ hn) fun p hp => (h.cites ho p hp).1.word]
  exact rel_refl .refl _

theorem Shows.like_leaving (hΔ : Δ.Fit c rank) (hΔ' : Δ'.Fit c rank)
    (hsame : ∀ o d d', Δ o = some d → Δ' o = some d' → d = d') (ho : InertRecord c o)
    (h : Shows c Δ o s env ps r) {doc : Option String}
    (h' : Shows c Δ' { o with
      doc, fields := o.fields.filter fun f => !names.contains (propertyName .input o.config f) }
      s' env' qs r') : List.Forall₂ (Property.Like env env') (leaving names ps) qs := by
  refine likeFields h.whole.tagged h'.whole.tagged ho.config
    (fun f hf => ho.fields f (List.mem_filter.mp hf).1) (fun key _ => ?_)
    (makes_leaving h.makes names) h'.makes
  exact h.whole.alike hΔ hΔ' h'.whole h.solves h'.solves hsame (rank key.owner + 1) key
    (Nat.lt_succ_self _)

/-- What a record shows without some fields: the same as with them, without their properties. -/
theorem Shows.omit (hΔ : Δ.Fit c rank) (hΔ' : Δ'.Fit c rank)
    (hsame : ∀ o d d', Δ o = some d → Δ' o = some d' → d = d') (ho : InertRecord c o)
    (h : Shows c Δ o s env ps r) {doc : Option String}
    (hdoc : Text.describedBy doc = Text.describedBy o.doc)
    (h' : Shows c Δ' { o with
      doc, fields := o.fields.filter fun f => !names.contains (propertyName .input o.config f) }
      s' env' qs r')
    (hn : (propertyNames o.config o.fields).Nodup)
    (hprops : Entries.get? (Config.schemaEntries o.config) "properties" = none)
    (hreq : Entries.get? (Config.schemaEntries o.config) "required" = none) :
    Json.Alike (.obj r') (.obj (withoutProperties names r)) ∧
      ∀ shown shown', Entries.get? r "properties" = some (.obj shown) →
        Entries.get? r' "properties" = some (.obj shown') →
          Entries.keys shown' = Entries.keys (Entries.withoutAll shown names) := by
  refine ⟨?_, fun shown shown' hshown hshown' => ?_⟩
  · have hrecord : recordEntries o.name doc o.config qs = recordEntries o.name o.doc o.config qs := by
      rw [recordEntries, recordEntries, hdoc]
    have halike' := h'.alike
    dsimp only at halike'
    rw [hrecord] at halike'
    have hleft := alike_recordEntries ho.name ho.doc ho.config
      (fun p hp => (h.cites ho p (List.mem_filter.mp hp).1).1) (h.like_leaving hΔ hΔ' hsame ho h')
    exact halike'.trans (hleft.symm.trans (h.alike_leaving ho hn hprops hreq names).symm)
  · obtain ⟨_, hget, hkeys⟩ := h.properties
    obtain ⟨_, hget', hkeys'⟩ := h'.properties
    rw [hshown] at hget
    rw [hshown'] at hget'
    cases hget
    cases hget'
    have hqs : qs.map Property.name = (leaving names ps).map Property.name := by
      rw [map_name_of_makes h'.makes, map_name_of_makes (makes_leaving h.makes names)]
    have hps := map_name_of_makes h.makes
    rw [Entries.keys_withoutAll, hkeys, ← Entries.keys_withoutAll, hkeys',
      ← propertiesOf_leaving (hps ▸ hn), keys_propertiesOf, keys_propertiesOf, hqs]

end Procedoc
