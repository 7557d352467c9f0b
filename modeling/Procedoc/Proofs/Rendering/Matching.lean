import Procedoc.Proofs.Rendering.Showing

/-! # One record on two sheets

Definitions of one owner on two sheets are the same sketch under two sets of labels.  So their values
are alike (`Sheet.Whole.alike`), and so are properties that a field makes on either
(`likeFields`). -/
namespace Procedoc
set_option autoImplicit false

/-! ## Labels that tell keys apart -/

/-- Whether no two keys of a list have one label. -/
def Apart (label : Key → String) (keys : List Key) : Prop :=
  ∀ x ∈ keys, ∀ y ∈ keys, label x = label y → x = y

/-- A text for a key of a list that is longer than some number of characters. -/
def longLabel (length : Nat) (keys : List Key) (key : Key) : String :=
  String.ofList (List.replicate (length + keys.idxOf key) 'x')

@[simp] theorem length_longLabel (length : Nat) (keys : List Key) (key : Key) :
    (longLabel length keys key).length = length + keys.idxOf key := by
  simp [longLabel, String.length]

theorem Sheet.exists_longer (s : Sheet) (keys : List Key) :
    ∃ bound, ∀ key ∈ keys, ∀ name, s.label? key = some name → name.length < bound := by
  induction keys with
  | nil => exact ⟨0, nofun⟩
  | cons key rest ih =>
    obtain ⟨bound, hbound⟩ := ih
    refine ⟨bound + ((s.label? key).getD "").length + 1, fun k hk name hn => ?_⟩
    rcases List.mem_cons.mp hk with rfl | hk
    · rw [hn, Option.getD_some]
      omega
    · have := hbound k hk name hn
      omega

/-- The labels of a sheet can be filled up so that no two keys share one. -/
theorem Sheet.Tagged.exists_apart {s : Sheet} (hs : s.Tagged) (keys : List Key) :
    ∃ label, s.Uses label ∧ Apart label keys := by
  obtain ⟨bound, hbound⟩ := s.exists_longer keys
  refine ⟨fun key => (s.label? key).getD (longLabel bound keys key),
    fun key name hn => by simp [hn], fun x hx y hy hxy => ?_⟩
  cases hlx : s.label? x with
  | some name =>
    cases hly : s.label? y with
    | some name' =>
      simp only [hlx, hly, Option.getD_some] at hxy
      exact hs.inj hlx (hxy ▸ hly)
    | none =>
      have hlen := congrArg String.length hxy
      have hlt := hbound x hx name hlx
      simp only [hlx, hly, Option.getD_some, Option.getD_none, length_longLabel] at hlen
      omega
  | none =>
    cases hly : s.label? y with
    | some name =>
      have hlen := congrArg String.length hxy
      have hlt := hbound y hy name hly
      simp only [hlx, hly, Option.getD_some, Option.getD_none, length_longLabel] at hlen
      omega
    | none =>
      have hlen := congrArg String.length hxy
      simp only [hlx, hly, Option.getD_none, length_longLabel] at hlen
      exact (List.idxOf_inj hx).mp (by omega)

/-- Other labels in the place of some that tell keys apart. -/
def relabelling (label label' : Key → String) (keys : List Key) : Renaming :=
  keys.map fun key => (label key, label' key)

theorem apply_relabelling {label label' : Key → String} {keys : List Key} (h : Apart label keys)
    {key : Key} (hk : key ∈ keys) :
    (relabelling label label' keys).apply (label key) = label' key := by
  have hget : Entries.get? (relabelling label label' keys) (label key) = some (label' key) := by
    induction keys with
    | nil => cases hk
    | cons k rest ih =>
      rw [relabelling, List.map_cons, Entries.get?]
      by_cases hlabel : label k = label key
      · rw [if_pos hlabel, h k (List.mem_cons_self ..) key hk hlabel]
      · rw [if_neg hlabel]
        rcases List.mem_cons.mp hk with rfl | hk
        · exact absurd rfl hlabel
        · exact ih (fun x hx y hy => h x (List.mem_cons_of_mem _ hx) y (List.mem_cons_of_mem _ hy)) hk
  rw [Renaming.apply, hget, Option.getD_some]

theorem relabels_relabelling {label label' : Key → String} {keys : List Key} (h : Apart label keys)
    (h' : Apart label' keys) :
    Shape.Relabels (relabelling label label' keys) label label' (· ∈ keys) where
  apply key hk := apply_relabelling h hk
  inj := by
    rintro _ _ ⟨x, hx, rfl⟩ ⟨y, hy, rfl⟩ hxy
    rw [apply_relabelling h hx, apply_relabelling h hy] at hxy
    rw [h' x hx y hy hxy]

/-! ## Fields on two sheets -/

variable {c : Catalog} {config : Config} {s s' : Sheet} {env env' : String → Json}

/-- Whether values for the labels of keys on two sheets are alike. -/
def LikeValues (s s' : Sheet) (env env' : String → Json) (K : Key → Prop) : Prop :=
  ∀ key, K key → ∀ name name', s.label? key = some name → s'.label? key = some name' →
    Json.Alike (env name) (env' name')

/-- Whether a property is what a field makes, whatever the labels of a sheet are extended to. -/
def Makes (c : Catalog) (config : Config) (s : Sheet) (f : Field Shape) (p : Property) : Prop :=
  ∀ label, s.Uses label → Shape.sketchField c label config f = .ok p

theorem makes_of_sketchFields {fields : List (Field Shape)} {ps : List Property}
    (h : ∀ label, s.Uses label → Shape.sketchFields c label config fields = .ok ps) :
    List.Forall₂ (Makes c config s) fields ps := by
  induction fields generalizing ps with
  | nil =>
    cases h _ (s.uses_labelOr "")
    exact .nil
  | cons f rest ih =>
    have hcons : ∀ label, s.Uses label → ∃ p ps', ps = p :: ps' ∧
        Shape.sketchField c label config f = .ok p ∧
        Shape.sketchFields c label config rest = .ok ps' := by
      intro label hl
      have hps := h label hl
      rw [Shape.sketchFields_cons] at hps
      obtain ⟨p, hp, hps⟩ := exists_of_bind_eq_ok hps
      obtain ⟨ps', hps', hps⟩ := exists_of_bind_eq_ok hps
      cases hps
      exact ⟨p, ps', rfl, hp, hps'⟩
    obtain ⟨p, ps', rfl, -⟩ := hcons _ (s.uses_labelOr "")
    refine .cons (fun label hl => ?_) (ih fun label hl => ?_)
    · obtain ⟨_, _, heq, hp, -⟩ := hcons label hl
      cases heq
      exact hp
    · obtain ⟨_, _, heq, -, hps'⟩ := hcons label hl
      cases heq
      exact hps'

theorem Makes.cites {f : Field Shape} {p : Property} (h : Makes c config s f p)
    (hc : InertConfig config) (hf : InertField c config f) :
    p.Cites fun name => ∃ key, key ∈ f.type.folded.refs ∧ s.label? key = some name := by
  have hcite := fun label hl => Shape.cites_sketchField (K := (· ∈ f.type.folded.refs)) hc hf
    (fun _ hk => hk) (h label hl)
  exact ⟨(hcite _ (s.uses_labelOr "")).1, s.citesOnly_labels fun label hl => (hcite label hl).2⟩

theorem Makes.like (hs : s.Tagged) (hs' : s'.Tagged) (hc : InertConfig config) {f : Field Shape}
    (hf : InertField c config f) (henv : LikeValues s s' env env' (· ∈ f.type.folded.refs))
    {p q : Property} (hp : Makes c config s f p) (hq : Makes c config s' f q) :
    Property.Like env env' p q := by
  obtain ⟨label, huses, hapart⟩ := hs.exists_apart f.type.folded.refs
  obtain ⟨label', huses', hapart'⟩ := hs'.exists_apart f.type.folded.refs
  have hn := relabels_relabelling hapart hapart'
  have hdef : ∃ n, n = relabelling label label' f.type.folded.refs := ⟨_, rfl⟩
  obtain ⟨n, hneq⟩ := hdef
  rw [← hneq] at hn
  -- the second property is the first under other labels
  have hpq : q = p.map (Entries.mapValues n.data) := by
    have hone : ∀ g ∈ [f], InertField c config g := fun g hg => List.mem_singleton.mp hg ▸ hf
    have hrelabel := Shape.sketchFields_relabel hn hc hone (fun g hg => by
      rw [List.mem_singleton.mp hg]
      exact fun _ hk => hk)
    rw [Shape.sketchFields_cons, Shape.sketchFields_cons, hp label huses, hq label' huses'] at hrelabel
    exact (List.cons.inj (Except.ok.inj hrelabel)).1
  have hcites := hp.cites hc hf
  have hcites' := hq.cites hc hf
  refine ⟨by rw [hpq]; rfl, by rw [hpq]; rfl, ?_⟩
  have hschema : Json.obj q.schema = n.data (.obj p.schema) := by
    rw [hpq, data_obj]
    rfl
  rw [hschema, n.resolved_data hcites.2]
  -- what the first property cites has a label on either sheet
  have hboth : CitesOnly (fun name => ∃ key, key ∈ f.type.folded.refs ∧ s.label? key = some name ∧
      s'.label? key = some (n.apply name)) (.obj p.schema) := by
    refine hcites.2.and_mentions.mono ?_
    rintro name ⟨⟨key, hk, hname⟩, hm⟩
    have hm' : Mentions (.obj q.schema) (n.apply name) := by
      rw [hschema, n.mentions_data hcites.2]
      exact ⟨name, hm, rfl⟩
    obtain ⟨key', hk', hname'⟩ := hcites'.2.known_of_mentions hm'
    have happly : n.apply name = label' key := by
      rw [← huses key name hname]
      exact hn.apply key hk
    have hkey : key' = key := hapart' key' hk' key hk (by
      rw [huses' key' _ hname', happly])
    exact ⟨key, hk, hname, hkey ▸ hname'⟩
  refine Json.alike_resolved hboth hboth (.refl _) ?_
  rintro name ⟨key, hk, hname, hname'⟩
  exact henv key hk name _ hname hname'

/-! ## Definitions on two sheets -/

variable {Δ Δ' : Outlines} {rank : Owner → Nat}

theorem Sheet.Whole.alike_record (hΔ : Δ.Fit c rank) (hs : s.Whole c Δ)
    (henv : Solves s.definitions env) {name : String} {d : Json} {r : Record Shape}
    (hr : InertRecord c r) (hd : Entries.get? s.definitions name = some d)
    (hdraws : s.Draws c (.record r) d) :
    ∃ ps, List.Forall₂ (Makes c r.config s) r.fields ps ∧
      Json.Alike (env name) (Json.resolved env (.obj (recordEntries r.name r.doc r.config ps))) := by
  obtain ⟨ps, qs, hps, hqs, heq⟩ := hdraws
  have hcites := s.cites_sketch hr hps
  refine ⟨ps, makes_of_sketchFields hps, ?_⟩
  rw [henv name d hd, heq]
  exact (alike_recordEntries hr.name hr.doc hr.config (fun p hp => (hcites p hp).1)
    (hs.like hΔ henv hcites hqs)).symm

theorem likeFields (hs : s.Tagged) (hs' : s'.Tagged) (hc : InertConfig config)
    {fields : List (Field Shape)} (hf : ∀ f ∈ fields, InertField c config f)
    (henv : LikeValues s s' env env' (· ∈ fieldKeys fields)) {ps qs : List Property}
    (hp : List.Forall₂ (Makes c config s) fields ps)
    (hq : List.Forall₂ (Makes c config s') fields qs) :
    List.Forall₂ (Property.Like env env') ps qs := by
  induction hp generalizing qs with
  | nil =>
    cases hq
    exact .nil
  | @cons f p rest ps hfp hrest ih =>
    cases hq with
    | cons hfq hq =>
      refine .cons (hfp.like hs hs' hc (hf f (List.mem_cons_self ..)) (fun key hk => henv key ?_) hfq)
        (ih (fun g hg => hf g (List.mem_cons_of_mem _ hg)) (fun key hk => henv key ?_) hq)
      · exact mem_fieldKeys (List.mem_cons_self ..) key hk
      · obtain ⟨g, hg, hk⟩ := List.mem_flatMap.mp hk
        exact mem_fieldKeys (List.mem_cons_of_mem _ hg) key hk

/-- What two sheets define for one key has alike values, where owners look the same to both. -/
theorem Sheet.Whole.alike (hΔ : Δ.Fit c rank) (hΔ' : Δ'.Fit c rank) (hs : s.Whole c Δ)
    (hs' : s'.Whole c Δ') (henv : Solves s.definitions env) (henv' : Solves s'.definitions env')
    (hsame : ∀ o d d', Δ o = some d → Δ' o = some d' → d = d') (n : Nat) :
    LikeValues s s' env env' fun key => rank key.owner < n := by
  induction n with
  | zero => exact fun key hk => absurd hk (Nat.not_lt_zero _)
  | succ n ih =>
    intro key hk name name' hname hname'
    obtain ⟨_, hname₁, hsome⟩ := hs.closed key (by rw [hname]; rfl)
    obtain ⟨_, hname₂, hsome'⟩ := hs'.closed key (by rw [hname']; rfl)
    rw [hname] at hname₁
    rw [hname'] at hname₂
    cases hname₁
    cases hname₂
    obtain ⟨d, hd⟩ := Option.isSome_iff_exists.mp hsome
    obtain ⟨d', hd'⟩ := Option.isSome_iff_exists.mp hsome'
    obtain ⟨k, o, hk₁, ho, hdraws⟩ := hs.drawn name d hd
    obtain ⟨k', o', hk₂, ho', hdraws'⟩ := hs'.drawn name' d' hd'
    rw [hs.tagged.inj hk₁ hname] at ho
    rw [hs'.tagged.inj hk₂ hname'] at ho'
    cases hsame _ _ _ ho ho'
    cases o with
    | enumeration e =>
      have hinert := hΔ.enumerations _ _ ho
      rw [henv name d hd, henv' name' d' hd', hdraws, hdraws', Json.resolved_of_inert hinert,
        Json.resolved_of_inert hinert]
      exact .refl _
    | record r =>
      have hr := hΔ.records _ _ ho
      obtain ⟨ps, hps, halike⟩ := hs.alike_record hΔ henv hr hd hdraws
      obtain ⟨qs, hqs, halike'⟩ := hs'.alike_record hΔ' henv' hr hd' hdraws'
      have hnames : ∀ p ∈ ps, Silent p.name := fun p hp => by
        obtain ⟨f, hf, hmakes⟩ := Shaping.exists_of_forall₂ hps.flip hp
        exact (Makes.cites hmakes hr.config (hr.fields f hf)).1
      refine halike.trans (.trans (alike_recordEntries hr.name hr.doc hr.config hnames ?_)
        halike'.symm)
      refine likeFields hs.tagged hs'.tagged hr.config hr.fields (fun key' hk' => ih key' ?_) hps hqs
      obtain ⟨f, hf, href⟩ := List.mem_flatMap.mp hk'
      exact Nat.lt_of_lt_of_le (hΔ.falls _ _ ho f hf key' href) (Nat.le_of_lt_succ hk)

end Procedoc
