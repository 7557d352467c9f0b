import Procedoc.Proofs.Rendering.Labelling
import Procedoc.Proofs.Rendering.Properties

/-! # Writing follows sketches

What is written for a shape is its sketch under the labels of the sheet (`follows_write`).  On the
way the sheet stays fair: under each label stands the sketch of what its owner looks like, but for
echoes. -/
namespace Procedoc
set_option autoImplicit false
open ExceptT (result_pure result_throw result_get result_modify result_bind result_tryCatch)

/-! ## Fair sheets -/

namespace Sheet

/-- Whether labels are those of a sheet, where it has any. -/
def Uses (s : Sheet) (label : Key → String) : Prop :=
  ∀ key name, s.label? key = some name → label key = name

def Defines (s : Sheet) (key : Key) : Prop :=
  ∃ name, s.label? key = some name ∧ (Entries.get? s.definitions name).isSome

/-- Whether data is the definition of what looks like an outline. -/
def Draws (c : Catalog) (s : Sheet) : Outline → Json → Prop
  | .enumeration e, d => d = .obj e.definition
  | .record r, d => ∃ ps qs,
      (∀ label, s.Uses label → Shape.sketchFields c label r.config r.fields = .ok ps) ∧
      List.Forall₂ (Echoes s.definitions) ps qs ∧
      d = .obj (recordEntries r.name r.doc r.config qs)

/-- Whether no label is shared, nothing is broken, and each definition is that of what its owner
looks like. -/
structure Fair (c : Catalog) (Δ : Outlines) (s : Sheet) : Prop where
  tagged : s.Tagged
  nodup : (Entries.keys s.definitions).Nodup
  unbroken : s.broken = []
  drawn : ∀ name d, Entries.get? s.definitions name = some d →
    ∃ key o, s.label? key = some name ∧ Δ key.owner = some o ∧ s.Draws c o d

/-- Whether a sheet has but more on it than another. -/
structure Grows (s s' : Sheet) : Prop where
  label? : ∀ key name, s.label? key = some name → s'.label? key = some name
  definitions : ∀ name d, Entries.get? s.definitions name = some d →
    Entries.get? s'.definitions name = some d

variable {s s' s'' : Sheet} {c : Catalog} {Δ : Outlines}

theorem Grows.refl (s : Sheet) : s.Grows s := ⟨fun _ _ h => h, fun _ _ h => h⟩

theorem Grows.trans (h : s.Grows s') (h' : s'.Grows s'') : s.Grows s'' :=
  ⟨fun key name hk => h'.label? key name (h.label? key name hk),
    fun name d hd => h'.definitions name d (h.definitions name d hd)⟩

theorem Grows.uses (h : s.Grows s') {label : Key → String} (hl : s'.Uses label) : s.Uses label :=
  fun key name hk => hl key name (h.label? key name hk)

theorem Grows.defines (h : s.Grows s') {key : Key} (hk : s.Defines key) : s'.Defines key := by
  obtain ⟨name, hn, hd⟩ := hk
  obtain ⟨d, hd⟩ := Option.isSome_iff_exists.mp hd
  exact ⟨name, h.label? key name hn, by rw [h.definitions name d hd]; rfl⟩

theorem Grows.draws (h : s.Grows s') {o : Outline} {d : Json} (ho : s.Draws c o d) :
    s'.Draws c o d := by
  cases o with
  | enumeration e => exact ho
  | record r =>
    obtain ⟨ps, qs, hps, hqs, hd⟩ := ho
    exact ⟨ps, qs, fun label hl => hps label (h.uses hl), hqs.imp fun _ _ he => he.mono h.definitions,
      hd⟩

/-- The labels of a sheet, and one label for all keys without any. -/
def labelOr (s : Sheet) (other : String) (key : Key) : String := (s.label? key).getD other

theorem uses_labelOr (s : Sheet) (other : String) : s.Uses (s.labelOr other) := by
  intro key name h
  rw [labelOr, h, Option.getD_some]

/-- What cites labels of keys whatever the labels of a sheet are extended to cites labels that are
on the sheet. -/
theorem citesOnly_labels {K : Key → Prop} {j : Json}
    (h : ∀ label, s.Uses label → CitesOnly (Shape.Labelled label K) j) :
    CitesOnly (fun name => ∃ key, K key ∧ s.label? key = some name) j := by
  have ha := h _ (s.uses_labelOr "a")
  have hb := h _ (s.uses_labelOr "b")
  refine ha.and_mentions.mono fun name hname => ?_
  obtain ⟨⟨key, hK, hkey⟩, hm⟩ := hname
  obtain ⟨key', hK', hkey'⟩ := hb.known_of_mentions hm
  rw [labelOr] at hkey hkey'
  cases hl : s.label? key with
  | some n =>
    rw [hl, Option.getD_some] at hkey
    exact ⟨key, hK, hkey ▸ hl⟩
  | none =>
    cases hl' : s.label? key' with
    | some n =>
      rw [hl', Option.getD_some] at hkey'
      exact ⟨key', hK', hkey' ▸ hl'⟩
    | none =>
      rw [hl, Option.getD_none] at hkey
      rw [hl', Option.getD_none] at hkey'
      rw [← hkey] at hkey'
      exact absurd hkey' (by decide)

end Sheet

/-! ## Computations that follow what is expected -/

/-- Whether two outcomes are related results, or the same obstacle. -/
inductive Matches {α β : Type} (rel : β → α → Prop) : Except Obstacle β → Except Obstacle α → Prop
  | ok {b : β} {a : α} (h : rel b a) : Matches rel (.ok b) (.ok a)
  | error (o : Obstacle) : Matches rel (.error o) (.error o)

/-- What is said of a run on a sheet: below which rank definitions are written, and which keys are
mentioned without being defined. -/
structure Bounds where
  rank : Owner → Nat
  below : Nat
  mentioned : Key → Prop

/-- Whether work keeps a sheet fair within bounds and gives what is expected under the labels of the
sheet. -/
structure Follows {α β : Type} (c : Catalog) (Δ : Outlines) (B : Bounds) (s : Sheet)
    (x : Writing α) (expected : (Key → String) → Except Obstacle β)
    (rel : Entries Json → β → α → Prop) : Prop where
  fair : (x.result s).2.Fair c Δ
  grows : s.Grows (x.result s).2
  labels : ∀ key, ((x.result s).2.label? key).isSome →
    (s.label? key).isSome ∨ B.mentioned key ∨ (x.result s).2.Defines key
  low : ∀ key, (x.result s).2.Defines key → s.Defines key ∨ B.rank key.owner < B.below
  eq : ∃ b, (∀ label, (x.result s).2.Uses label → expected label = b) ∧
    Matches (rel (x.result s).2.definitions) b (x.result s).1

variable {α β γ δ : Type} {c : Catalog} {Δ : Outlines} {B : Bounds} {s s' : Sheet}
  {rel : Entries Json → β → α → Prop} {rel' : Entries Json → δ → γ → Prop}

theorem Follows.pure {a : α} {b : β} (hs : s.Fair c Δ) (h : rel s.definitions b a) :
    Follows c Δ B s (pure a) (fun _ => .ok b) rel where
  fair := hs
  grows := .refl s
  labels := fun _ h => .inl h
  low := fun _ h => .inl h
  eq := ⟨.ok b, fun _ _ => rfl, .ok h⟩

theorem Follows.still {x : Writing α} (hs : s.Fair c Δ) (h : x.Still) :
    Follows c Δ B s x (fun _ => x.outcome) fun _ => Eq := by
  have hres : x.result s = (x.outcome, s) := h s
  refine ⟨by rwa [hres], by rw [hres]; exact .refl s, ?_, ?_, ?_⟩
  · rw [hres]
    exact fun _ h => .inl h
  · rw [hres]
    exact fun _ h => .inl h
  · rw [hres]
    refine ⟨x.outcome, fun _ _ => rfl, ?_⟩
    cases x.outcome with
    | ok a => exact .ok rfl
    | error o => exact .error o

theorem Follows.bind {x : Writing α} {e : (Key → String) → Except Obstacle β} {f : α → Writing γ}
    {g : (Key → String) → β → Except Obstacle δ} (hx : Follows c Δ B s x e rel)
    (hf : ∀ s' a b, s'.Fair c Δ → s.Grows s' → rel s'.definitions b a →
      (∀ label, s'.Uses label → e label = .ok b) →
      Follows c Δ B s' (f a) (fun label => g label b) rel') :
    Follows c Δ B s (x >>= f) (fun label => e label >>= g label) rel' := by
  obtain ⟨hfair, hgrows, hlabels, hlow, b, hb, hmatch⟩ := hx
  rcases hr : x.result s with ⟨o | a, s'⟩
  · rw [hr] at hfair hgrows hlabels hlow hb hmatch
    have hres : (x >>= f).result s = (.error o, s') := by rw [result_bind, hr]
    refine ⟨by rwa [hres], by rwa [hres], by rwa [hres], by rwa [hres], .error o, ?_, ?_⟩
    · rw [hres]
      intro label hl
      cases hmatch
      rw [hb label hl]
      rfl
    · rw [hres]
      exact .error o
  · rw [hr] at hfair hgrows hlabels hlow hb hmatch
    have hres : (x >>= f).result s = (f a).result s' := by rw [result_bind, hr]
    cases hmatch with
    | @ok b _ hrel =>
      obtain ⟨hfair', hgrows', hlabels', hlow', b', hb', hmatch'⟩ := hf s' a b hfair hgrows hrel hb
      refine ⟨by rwa [hres], by rw [hres]; exact hgrows.trans hgrows', ?_, ?_, b', ?_, ?_⟩
      · rw [hres]
        intro key hk
        rcases hlabels' key hk with h | h
        · rcases hlabels key h with h | h | h
          · exact .inl h
          · exact .inr (.inl h)
          · exact .inr (.inr (hgrows'.defines h))
        · exact .inr h
      · rw [hres]
        intro key hk
        rcases hlow' key hk with h | h
        · exact hlow key h
        · exact .inr h
      · rw [hres]
        intro label hl
        rw [hb label (hgrows'.uses hl)]
        exact hb' label hl
      · rwa [hres]

theorem Follows.of_result {x y : Writing α} {e : (Key → String) → Except Obstacle β}
    (hy : Follows c Δ B s y e rel) (h : x.result s = y.result s) : Follows c Δ B s x e rel :=
  ⟨by rw [h]; exact hy.fair, by rw [h]; exact hy.grows, by rw [h]; exact hy.labels,
    by rw [h]; exact hy.low, by rw [h]; exact hy.eq⟩

theorem Follows.map {x : Writing α} {e : (Key → String) → Except Obstacle β}
    (hx : Follows c Δ B s x e rel) {f : α → γ} {g : β → δ}
    (hfg : ∀ ds b a, rel ds b a → rel' ds (g b) (f a)) :
    Follows c Δ B s (x >>= fun a => Pure.pure (f a)) (fun label => e label >>= fun b => .ok (g b))
      rel' :=
  hx.bind fun _ a b hs' _ hab _ => .pure hs' (hfg _ b a hab)

theorem Follows.attempt {x : Writing (Entries Json)}
    {e : (Key → String) → Except Obstacle (Entries Json)}
    (hx : Follows c Δ B s x e fun _ => Eq) :
    Follows c Δ B s (Writing.attempt x) (fun label => drawn (e label))
      fun _ es a => es = a.toList := by
  obtain ⟨hfair, hgrows, hlabels, hlow, b, hb, hmatch⟩ := hx
  have hres := Writing.result_attempt x s
  rcases hr : x.result s with ⟨o | a, s'⟩
  · rw [hr] at hfair hgrows hlabels hlow hb hmatch hres
    cases hmatch
    by_cases ho : o = .indescribable
    · subst ho
      simp only at hres
      refine ⟨by rwa [hres], by rwa [hres], by rwa [hres], by rwa [hres], .ok [], ?_, ?_⟩
      · rw [hres]
        intro label hl
        rw [hb label hl]
        rfl
      · rw [hres]
        exact .ok rfl
    · have hres' : (Writing.attempt x).result s = (.error o, s') := by
        cases o <;> first | exact hres | exact absurd rfl ho
      refine ⟨by rwa [hres'], by rwa [hres'], by rwa [hres'], by rwa [hres'], .error o, ?_, ?_⟩
      · rw [hres']
        intro label hl
        rw [hb label hl]
        cases o <;> first | rfl | exact absurd rfl ho
      · rw [hres']
        exact .error o
  · rw [hr] at hfair hgrows hlabels hlow hb hmatch hres
    simp only at hres
    cases hmatch with
    | @ok b _ hrel =>
      cases hrel
      refine ⟨by rwa [hres], by rwa [hres], by rwa [hres], by rwa [hres], .ok [a], ?_, ?_⟩
      · rw [hres]
        intro label hl
        rw [hb label hl]
        rfl
      · rw [hres]
        exact .ok rfl

/-! ## References and definitions -/

namespace Sheet

theorem withLabel_spec (s : Sheet) (key : Key) :
    (s.withLabel key .input).2.label? key = some (s.withLabel key .input).1 ∧
      s.Grows (s.withLabel key .input).2 ∧
      (∀ k, ((s.withLabel key .input).2.label? k).isSome → (s.label? k).isSome ∨ k = key) ∧
      (s.withLabel key .input).2.definitions = s.definitions ∧
      (s.withLabel key .input).2.broken = s.broken := by
  cases h : s.label? key with
  | some label =>
    rw [withLabel_of_some h]
    exact ⟨h, .refl s, fun _ hk => .inl hk, rfl, rfl⟩
  | none =>
    have hl := labels_withLabel h
    refine ⟨hl.own, ⟨fun k name hk => ?_, fun name d hd => by rwa [hl.definitions]⟩,
      fun k hk => ?_, hl.definitions, hl.broken⟩
    · rw [hl.other k fun hkey => ?_]
      · exact hk
      · rw [hkey, h] at hk
        cases hk
    · by_cases hkey : k = key
      · exact .inr hkey
      · rw [hl.other k hkey] at hk
        exact .inl hk

theorem Fair.withLabel (hs : s.Fair c Δ) (key : Key) : (s.withLabel key .input).2.Fair c Δ := by
  obtain ⟨-, hgrows, -, hdefs, hbroken⟩ := s.withLabel_spec key
  refine ⟨hs.tagged.withLabel key, by rw [hdefs]; exact hs.nodup, by rw [hbroken]; exact hs.unbroken,
    fun name d hd => ?_⟩
  rw [hdefs] at hd
  obtain ⟨k, o, hk, ho, hdraws⟩ := hs.drawn name d hd
  exact ⟨k, o, hgrows.label? k name hk, ho, hgrows.draws hdraws⟩

end Sheet

theorem follows_reference (hs : s.Fair c Δ) {key : Key} (hm : B.mentioned key) :
    Follows c Δ B s (Writing.reference key .input) (fun label => .ok (referenceTo (label key)))
      fun _ => Eq := by
  obtain ⟨hown, hgrows, hlabels, hdefs, -⟩ := s.withLabel_spec key
  have hres : (Writing.reference key .input).result s =
      (.ok (referenceTo (s.withLabel key .input).1), (s.withLabel key .input).2) := rfl
  refine ⟨by rw [hres]; exact hs.withLabel key, by rwa [hres], ?_, ?_, ?_⟩
  · rw [hres]
    intro k hk
    rcases hlabels k hk with h | rfl
    · exact .inl h
    · exact .inr (.inl hm)
  · rw [hres]
    rintro k ⟨name, hn, hd⟩
    rw [hdefs] at hd
    obtain ⟨d, hd'⟩ := Option.isSome_iff_exists.mp hd
    obtain ⟨k', -, hk', -⟩ := hs.drawn name d hd'
    -- what is defined had a label before, which is the label of one key only
    have hsame := (hs.withLabel key).tagged.inj hn (hgrows.label? k' name hk')
    exact .inl ⟨name, hsame ▸ hk', hd⟩
  · rw [hres]
    refine ⟨.ok (referenceTo (s.withLabel key .input).1), fun label hl => ?_, .ok rfl⟩
    rw [hl key _ hown]

namespace Sheet

/-- A sheet on which a key has got its label and its definition. -/
def defined (s : Sheet) (key : Key) (e : Entries Json) : Sheet :=
  (s.withLabel key .input).2.define (s.withLabel key .input).1 e

/-- What a first definition of a key changes. -/
structure Extends (s s' : Sheet) (key : Key) : Prop where
  grows : s.Grows s'
  defines : s'.Defines key
  label? : ∀ k, (s'.label? k).isSome → (s.label? k).isSome ∨ k = key
  definesOnly : ∀ k, s'.Defines k → s.Defines k ∨ k = key

theorem Fair.extends_defined (hs : s.Fair c Δ) {key : Key} (hnot : ¬ s.Defines key)
    (e : Entries Json) : s.Extends (s.defined key e) key := by
  obtain ⟨hown, hgrows, hlabels, hdefs, -⟩ := s.withLabel_spec key
  have htagged := (hs.withLabel key).tagged
  have hlookup : ∀ name, Entries.get? (s.defined key e).definitions name =
      if (s.withLabel key .input).1 = name then some (.obj e)
      else Entries.get? s.definitions name := by
    intro name
    rw [defined, define, hdefs, Entries.get?_put]
  have hnew : Entries.get? s.definitions (s.withLabel key .input).1 = none := by
    cases hd : Entries.get? s.definitions (s.withLabel key .input).1 with
    | none => rfl
    | some d =>
      obtain ⟨k, -, hk, -⟩ := hs.drawn _ d hd
      rw [← htagged.inj hown (hgrows.label? k _ hk)] at hk
      exact absurd ⟨_, hk, by rw [hd]; rfl⟩ hnot
  refine ⟨⟨hgrows.label?, fun name d hd => ?_⟩, ⟨_, hown, ?_⟩, hlabels, ?_⟩
  · rw [hlookup, if_neg]
    · exact hd
    · intro heq
      rw [← heq, hnew] at hd
      cases hd
  · rw [hlookup, if_pos rfl]
    rfl
  · rintro k ⟨name, hn, hd⟩
    rw [hlookup] at hd
    split at hd
    · rename_i heq
      exact .inr (htagged.inj hn (heq ▸ hown))
    · obtain ⟨d, hd'⟩ := Option.isSome_iff_exists.mp hd
      obtain ⟨k', -, hk', -⟩ := hs.drawn name d hd'
      have hsame := htagged.inj hn (hgrows.label? k' name hk')
      exact .inl ⟨name, hsame ▸ hk', hd⟩

theorem Fair.defined (hs : s.Fair c Δ) {key : Key} {o : Outline} {e : Entries Json}
    (ho : Δ key.owner = some o) (hnot : ¬ s.Defines key) (hdraws : s.Draws c o (.obj e)) :
    (s.defined key e).Fair c Δ := by
  obtain ⟨hown, -, -, hdefs, hbroken⟩ := s.withLabel_spec key
  have hgrows := (hs.extends_defined hnot e).grows
  have htagged := (hs.withLabel key).tagged
  refine ⟨⟨htagged.bounded, htagged.apart, htagged.numbered, htagged.named⟩, ?_, ?_,
    fun name d hd => ?_⟩
  · rw [Sheet.defined, define, hdefs]
    exact Entries.nodup_keys_put hs.nodup _ _
  · rw [Sheet.defined, define, hbroken, hs.unbroken]
    rfl
  · rw [Sheet.defined, define, hdefs, Entries.get?_put] at hd
    split at hd
    · rename_i heq
      cases hd
      exact ⟨key, o, heq ▸ hown, ho, hgrows.draws hdraws⟩
    · obtain ⟨k, o', hk, ho', hd'⟩ := hs.drawn name d hd
      exact ⟨k, o', hgrows.label? k name hk, ho', hgrows.draws hd'⟩

end Sheet

/-- A definition in its place is written once, and what stands in its place refers to it. -/
theorem follows_entity (hs : s.Fair c Δ) {key : Key} {o : Outline} {body : Writing (Entries Json)}
    {e : Entries Json} (ho : Δ key.owner = some o) (hrank : B.rank key.owner < B.below)
    {expected : (Key → String) → Except Obstacle β} {rel : Entries Json → β → Entries Json → Prop}
    (hbody : Follows c Δ { B with below := B.rank key.owner } s body expected rel)
    (hok : (body.result s).1 = .ok e) (hdraws : (body.result s).2.Draws c o (.obj e))
    (href : Entries.get? e "$ref" = none) :
    Follows c Δ B s (Writing.entity key .input body) (fun label => .ok (referenceTo (label key)))
      (fun _ => Eq) ∧ ((Writing.entity key .input body).result s).2.Defines key := by
  cases hl : (s.labels.lookup (key, Side.input)).filter (Entries.has s.definitions) with
  | some written =>
    obtain ⟨hlookup, hhas⟩ := Option.filter_eq_some_iff.mp hl
    have hres := Writing.result_entity_of_written body hl
    refine ⟨⟨by rwa [hres], by rw [hres]; exact .refl s, by rw [hres]; exact fun _ h => .inl h,
      by rw [hres]; exact fun _ h => .inl h, ?_⟩, by rw [hres]; exact ⟨written, hlookup, hhas⟩⟩
    rw [hres]
    refine ⟨.ok (referenceTo written), fun label hl => ?_, .ok rfl⟩
    rw [hl key written hlookup]
  | none =>
    rcases hr : body.result s with ⟨r, s₁⟩
    rw [hr] at hok hdraws
    obtain ⟨hfair, hgrows, hlabels, hlow, -⟩ := hbody
    rw [hr] at hfair hgrows hlabels hlow
    simp only at hok hdraws hfair hgrows hlabels hlow
    subst hok
    -- the key is not defined before its body is written, nor while it is
    have hnot : ¬ s₁.Defines key := by
      intro hd
      rcases hlow key hd with ⟨name, hn, hd⟩ | hlt
      · have : (s.labels.lookup (key, Side.input)).filter (Entries.has s.definitions) = some name :=
          Option.filter_eq_some_iff.mpr ⟨hn, hd⟩
        rw [hl] at this
        cases this
      · exact Nat.lt_irrefl _ hlt
    have hext := hfair.extends_defined hnot e
    have hres : (Writing.entity key .input body).result s =
        (.ok (referenceTo (s₁.withLabel key .input).1), s₁.defined key e) := by
      rw [Writing.result_entity hl, hr]
      dsimp only
      rw [href]
      rfl
    refine ⟨⟨by rw [hres]; exact hfair.defined ho hnot hdraws,
      by rw [hres]; exact hgrows.trans hext.grows, ?_, ?_, ?_⟩, by rw [hres]; exact hext.defines⟩
    · rw [hres]
      intro k hk
      rcases hext.label? k hk with h | rfl
      · rcases hlabels k h with h | h | h
        · exact .inl h
        · exact .inr (.inl h)
        · exact .inr (.inr (hext.grows.defines h))
      · exact .inr (.inr hext.defines)
    · rw [hres]
      intro k hk
      rcases hext.definesOnly k hk with h | rfl
      · exact (hlow k h).imp_right fun h => Nat.lt_trans h hrank
      · exact .inr hrank
    · rw [hres]
      refine ⟨_, fun label hl => ?_, .ok rfl⟩
      rw [hl key _ (s₁.withLabel_spec key).1]

/-! ## Properties -/

/-- Whether the second schema is the first, possibly without what repeats the definition that it
refers to. -/
def Echoed (definitions : Entries Json) (e e' : Entries Json) : Prop :=
  e' = e ∨ ∃ label target, Refers e label ∧ Entries.get? definitions label = some target ∧
    e' = withoutEchoesOf target e

theorem Sheet.Tagged.has {key : Key} {name : String} (hs : s.Tagged) (h : s.label? key = some name) :
    Entries.has s.names name = true := by
  have hm := hs.named key name h
  rw [Renaming.namesOf] at hm
  rw [Entries.has]
  cases hg : Entries.get? s.names name with
  | none =>
    rw [hg] at hm
    cases hm
  | some ns => rfl

theorem follows_withoutEchoes (hs : s.Fair c Δ) {e : Entries Json}
    (h : CitesOnly (fun name => ∃ key, s.label? key = some name) (.obj e)) :
    Follows c Δ B s (Writing.withoutEchoes e) (fun _ => .ok e) Echoed := by
  rcases refers_or_get?_eq_none h with ⟨name, ⟨key, hkey⟩, hrefers⟩ | hnone
  · have htarget : s.target? (.str (definitionRef name)) = .ok (Entries.get? s.definitions name) := by
      simp [Sheet.target?, Option.filter, hs.tagged.has hkey, hs.unbroken]
    have hres : (Writing.withoutEchoes e).result s =
        ((Entries.get? s.definitions name).elim (Pure.pure e : Writing (Entries Json))
          fun target => Pure.pure (withoutEchoesOf target e)).result s := by
      rw [Refers] at hrefers
      rw [Writing.withoutEchoes, hrefers]
      dsimp only
      rw [result_bind, result_get]
      dsimp only
      rw [htarget, Writing.withoutEchoes.liftExcept, result_bind, result_pure]
      cases Entries.get? s.definitions name <;> rfl
    refine Follows.of_result ?_ hres
    cases hd : Entries.get? s.definitions name with
    | none => exact .pure hs (.inl rfl)
    | some target => exact .pure hs (.inr ⟨name, target, hrefers, hd, rfl⟩)
  · have hres : (Writing.withoutEchoes e).result s =
        (Pure.pure e : Writing (Entries Json)).result s := by
      rw [Writing.withoutEchoes, hnone]
    exact Follows.of_result (.pure hs (.inl rfl)) hres

theorem follows_property (hs : s.Fair c Δ) (config : Config) {f : Facts} (hn : InertNotes f.notes)
    (hf : InertFallback c f.fallback) {property : String} (hp : Silent (Text.label property))
    (wantsTitle : Bool) {shown : Entries Json}
    (h : CitesOnly (fun name => ∃ key, s.label? key = some name) (.obj shown)) :
    Follows c Δ B s (propertyEntries c config f property wantsTitle shown)
      (fun _ => Shape.sketchProperty c config f property wantsTitle shown) Echoed := by
  have hstill := Follows.still (B := B) hs (still_withDefault c config f.fallback shown)
  refine hstill.bind fun s' a b hs' hgrows hab hb => ?_
  subst hab
  have hdefault := hb _ (s'.uses_labelOr "")
  have hcite : CitesOnly (fun name => ∃ key, s'.label? key = some name) (.obj shown) :=
    h.mono fun name ⟨key, hk⟩ => ⟨key, hgrows.label? key name hk⟩
  refine follows_withoutEchoes hs' ?_
  refine Shape.citesOnly_sketchProperty hn hf hp hcite
    (?_ : Shape.sketchProperty c config f property wantsTitle shown = _)
  rw [Shape.sketchProperty, hdefault]
  rfl

/-! ## Shapes -/

/-- Whether a record has a schema, whatever the labels are. -/
structure Describes (c : Catalog) (r : Record Shape) : Prop where
  fields : ∀ label, Shape.fate (Shape.sketchFields c label r.config r.fields) = none
  isWritable : Config.isWritable r.config = true

/-- Whether nothing in a record reads as a reference, and it is documented for the side that is
asked for. -/
structure InertRecord (c : Catalog) (r : Record Shape) : Prop where
  side : Shape.sideIn r.config .input = .input
  config : InertConfig r.config
  fields : ∀ f ∈ r.fields, InertField c r.config f
  name : Silent r.name
  doc : ∀ d, Text.describedBy r.doc = some d → Silent d

/-- Whether outlines refer to outlines of lower rank only, and nothing else in them reads as a
reference. -/
structure Outlines.Fit (c : Catalog) (rank : Owner → Nat) (Δ : Outlines) : Prop where
  falls : ∀ o r, Δ o = some (.record r) →
    ∀ f ∈ r.fields, ∀ key ∈ f.type.folded.refs, rank key.owner < rank o
  records : ∀ o r, Δ o = some (.record r) → InertRecord c r
  enumerations : ∀ o e, Δ o = some (.enumeration e) → Inert (.obj e.definition)

namespace Shape
variable {rank : Owner → Nat} {mentioned : Key → Prop} {config : Config}

theorem citesOnly_shown (hc : InertConfig config) {t : Shape} (hq : t.folded.IsInert c)
    {e : Entries Json} (h : ∀ label, s.Uses label → t.sketch c label config = .ok e) :
    CitesOnly (fun name => ∃ key, s.label? key = some name) (.obj e) := by
  refine (s.citesOnly_labels (K := fun _ => True) fun label hl => ?_).mono
    fun name ⟨key, _, hk⟩ => ⟨key, hk⟩
  refine citesOnly_sketch hc t.folded hq (fun _ _ => trivial) e ?_
  rw [sketch_folded, h label hl]

theorem follows_wrapped {α γ : Type} {x : Writing α} {e : (Key → String) → Except Obstacle α}
    {B : Bounds} (hx : Follows c Δ B s x e fun _ => Eq) (f : α → γ) :
    Follows c Δ B s (do return f (← x)) (fun label => do return f (← e label)) fun _ => Eq :=
  hx.map fun _ _ _ h => congrArg f h

theorem sketchFields_cons (label : Key → String) (f : Field Shape) (rest : List (Field Shape)) :
    sketchFields c label config (f :: rest) = (do
      let p ← sketchField c label config f
      let ps ← sketchFields c label config rest
      return p :: ps) := by
  rw [sketchFields, List.mapM_cons]
  rfl

theorem follows_enumeration (hΔ : Δ.Fit c rank) {key : Key} {e : Enumeration} (ho : Δ key.owner = some (.enumeration e))
    {k : Nat} (hk : rank key.owner < k) (hside : sideIn config .input = .input)
    (hs : s.Fair c Δ) :
    Follows c Δ ⟨rank, k, mentioned⟩ s ((enumeration key e).write c .input config)
      (fun label => (enumeration key e).sketch c label config) (fun _ => Eq) ∧
      (((enumeration key e).write c .input config).result s).2.Defines key := by
  simp only [write, sketch, hside]
  have hbody : Follows c Δ ⟨rank, rank key.owner, mentioned⟩ s (pure e.definition)
      (fun _ => .ok ()) fun _ _ _ => True := .pure hs trivial
  exact follows_entity hs ho hk hbody rfl rfl
    (get?_of_overlay (overlay_of_inert (hΔ.enumerations _ _ ho)))

theorem follows_record (hΔ : Δ.Fit c rank) {key : Key} {name : String} {doc : Option String} {own : Config}
    {fields : List (Field Shape)}
    (ho : Δ key.owner = some (.record ⟨name, doc, own, fields.map foldedField⟩)) {k : Nat}
    (hk : rank key.owner < k) (hd : Describes c ⟨name, doc, own, fields.map foldedField⟩)
    (hside : sideIn config .input = .input) (hs : s.Fair c Δ)
    (hfields : Follows c Δ ⟨rank, rank key.owner, mentioned⟩ s (writeFields c .input own fields)
      (fun label => sketchFields c label own fields) fun ds => List.Forall₂ (Echoes ds)) :
    Follows c Δ ⟨rank, k, mentioned⟩ s ((record key ⟨name, doc, own, fields⟩).write c .input config)
      (fun label => (record key ⟨name, doc, own, fields⟩).sketch c label config) (fun _ => Eq) ∧
      (((record key ⟨name, doc, own, fields⟩).write c .input config).result s).2.Defines key := by
  have hq := hΔ.records _ _ ho
  simp only [write, sketch, hside]
  obtain ⟨b, hb, hmatch⟩ := hfields.eq
  obtain ⟨qs, hqs⟩ : ∃ qs, ((writeFields c .input own fields).result s).1 = .ok qs := by
    have hfate := hd.fields (((writeFields c .input own fields).result s).2.labelOr "")
    rw [sketchFields_folded, hb _ (Sheet.uses_labelOr _ _)] at hfate
    revert hmatch
    generalize ((writeFields c .input own fields).result s).1 = r
    rintro (⟨-⟩ | o)
    · exact ⟨_, rfl⟩
    · cases hfate
  have hbody : Follows c Δ ⟨rank, rank key.owner, mentioned⟩ s (do
      let properties ← writeFields c .input own fields
      if Config.isWritable own then return recordEntries name doc own properties
      else throw .unfitSetting) (fun label => do
        let ps ← sketchFields c label own fields
        .ok ps) (fun _ _ _ => True) := by
    refine hfields.bind fun s' qs ps hs' _ _ _ => ?_
    rw [hd.isWritable]
    exact .pure hs' trivial
  have hres : ((do
      let properties ← writeFields c .input own fields
      if Config.isWritable own then return recordEntries name doc own properties
      else throw .unfitSetting : Writing (Entries Json))).result s =
        (.ok (recordEntries name doc own qs), ((writeFields c .input own fields).result s).2) := by
    rw [result_bind]
    rcases hr : (writeFields c .input own fields).result s with ⟨r, s'⟩
    rw [hr] at hqs
    simp only at hqs
    subst hqs
    dsimp only
    rw [hd.isWritable]
    rfl
  refine follows_entity hs ho hk hbody (by rw [hres]) ?_ (get?_ref_recordEntries hq.config qs)
  rw [hres]
  rw [hqs] at hmatch
  cases hmatch with
  | @ok ps _ hrel =>
    refine ⟨ps, qs, fun label hl => ?_, hrel, rfl⟩
    rw [sketchFields_folded]
    exact hb label hl

mutual
theorem follows_write (hΔ : Δ.Fit c rank) : (t : Shape) → t.Agrees Δ → (∀ key ∈ t.refs, mentioned key) →
    ∀ (k : Nat) (config : Config) (s : Sheet),
      (∀ o r, Δ o = some (.record r) → rank o < k → Describes c r) →
      (∀ key ∈ t.folded.refs, rank key.owner < k) → sideIn config .input = .input →
      s.Fair c Δ → Follows c Δ ⟨rank, k, mentioned⟩ s (t.write c .input config)
        (fun label => t.sketch c label config) fun _ => Eq
  | plain p bounds, _, _, k, config, s, _, _, _, hs => by
    simp only [write, sketch]
    exact .still hs (still_plainEntries config p bounds)
  | literal values, _, _, k, config, s, _, _, _, hs => by
    simp only [write, sketch]
    exact follows_wrapped (.still hs (Writing.still_mapM (still_writtenData c []) values)) valueSet
  | container kind inner bounds, ha, hm, k, config, s, hd, hk, hside, hs => by
    rw [Agrees] at ha
    rw [refs_container] at hm
    rw [folded, refs_container] at hk
    simp only [write, sketch]
    exact follows_wrapped (follows_write hΔ inner ha hm k config s hd hk hside hs) fun item =>
      Entries.override (listOf (.obj item) kind.isDistinct) (Grip.items.shown bounds)
  | tuple items bounds, ha, hm, k, config, s, hd, hk, hside, hs => by
    rw [Agrees] at ha
    rw [refs_tuple] at hm
    rw [folded, refs_tuple] at hk
    simp only [write, sketch]
    exact follows_wrapped (follows_writeAll hΔ items ha hm k config s hd hk hside hs) fun es =>
      Entries.override (tupleOf es) (Grip.items.shown bounds)
  | dict a b bounds, ha, hm, k, config, s, hd, hk, hside, hs => by
    rw [Agrees] at ha
    rw [refs_dict] at hm
    rw [folded, refs_dict] at hk
    simp only [write, sketch]
    refine (follows_write hΔ a ha.1 (fun key h => hm key (List.mem_append_left _ h)) k config s hd
      (fun key h => hk key (List.mem_append_left _ h)) hside hs).bind
      fun s' x y hs' _ hxy _ => ?_
    subst hxy
    exact follows_wrapped (follows_write hΔ b ha.2 (fun key h => hm key (List.mem_append_right _ h))
      k config s' hd (fun key h => hk key (List.mem_append_right _ h)) hside hs') fun value =>
      Entries.override (mappingOf y value) (Grip.mapping.shown bounds)
  | union members, ha, hm, k, config, s, hd, hk, hside, hs => by
    rw [Agrees] at ha
    rw [refs_union] at hm
    rw [folded, refs_union] at hk
    simp only [write, sketch]
    exact follows_wrapped (follows_writeSome hΔ members ha hm k config s hd hk hside hs) unionEntries
  | nullable inner, ha, hm, k, config, s, hd, hk, hside, hs => by
    rw [Agrees] at ha
    rw [refs_nullable] at hm
    rw [folded, refs_nullable] at hk
    simp only [write, sketch]
    exact follows_wrapped (follows_write hΔ inner ha hm k config s hd hk hside hs) orNull
  | guarded inner, ha, hm, k, config, s, hd, hk, hside, hs => by
    rw [Agrees] at ha
    rw [refs_guarded] at hm
    rw [folded, refs_guarded] at hk
    simp only [write, sketch]
    exact follows_write hΔ inner ha hm k config s hd hk hside hs
  | chained inner _, ha, hm, k, config, s, hd, hk, hside, hs => by
    rw [Agrees] at ha
    rw [refs_chained] at hm
    rw [folded, refs_chained] at hk
    simp only [write, sketch, hside]
    exact follows_write hΔ inner ha hm k config s hd hk hside hs
  | replaced _ _, _, _, k, config, s, _, _, hside, hs => by
    simp only [write, sketch, hside]
    exact .pure hs rfl
  | concealed, _, _, k, config, s, _, _, hside, hs => by
    simp only [write, sketch, hside]
    exact .pure hs rfl
  | defaulted inner fallback, ha, hm, k, config, s, hd, hk, hside, hs => by
    rw [Agrees] at ha
    rw [refs_defaulted] at hm
    rw [folded, refs_defaulted] at hk
    simp only [write, sketch]
    refine (follows_write hΔ inner ha hm k config s hd hk hside hs).bind fun s' x y hs' _ hxy _ => ?_
    subst hxy
    exact .still hs' (still_withDefault c config fallback y)
  | noted inner notes, ha, hm, k, config, s, hd, hk, hside, hs => by
    rw [Agrees] at ha
    rw [refs_noted] at hm
    rw [folded, refs_noted] at hk
    simp only [write, sketch]
    exact follows_wrapped (follows_write hΔ inner ha hm k config s hd hk hside hs) notes.onto
  | reference key, _, hm, k, config, s, _, _, hside, hs => by
    simp only [write, sketch, hside]
    exact follows_reference hs (hm key (List.mem_singleton.mpr rfl))
  | shared _, ha, _, _, _, _, _, _, _, _ => by
    rw [Agrees] at ha
    exact ha.elim
  | enumeration key e, ha, _, k, config, s, _, hk, hside, hs => by
    rw [Agrees] at ha
    exact (follows_enumeration hΔ ha (hk key (List.mem_singleton.mpr rfl)) hside hs).1
  | record key ⟨name, doc, own, fields⟩, ha, hm, k, config, s, hd, hk, hside, hs => by
    rw [Agrees] at ha
    rw [refs_record] at hm
    have hkey := hk key (List.mem_singleton.mpr rfl)
    have hq := hΔ.records _ _ ha.1
    exact (follows_record hΔ ha.1 hkey (hd _ _ ha.1 hkey) hside hs
      (follows_writeFields hΔ fields ha.2 hm (rank key.owner) own s
        (fun o r ho hlt => hd o r ho (Nat.lt_trans hlt hkey))
        (fun f hf => by
          have hfalls := hΔ.falls _ _ ha.1 (foldedField f) (List.mem_map_of_mem hf)
          rwa [foldedField, folded_folded] at hfalls)
        hq.side hq.config (fun f hf => hq.fields (foldedField f) (List.mem_map_of_mem hf)) hs)).1

theorem follows_writeAll (hΔ : Δ.Fit c rank) : (shapes : List Shape) → AgreeAll Δ shapes →
    (∀ key ∈ shapes.flatMap refs, mentioned key) → ∀ (k : Nat) (config : Config) (s : Sheet),
      (∀ o r, Δ o = some (.record r) → rank o < k → Describes c r) →
      (∀ key ∈ (foldedList shapes).flatMap refs, rank key.owner < k) →
      sideIn config .input = .input → s.Fair c Δ →
      Follows c Δ ⟨rank, k, mentioned⟩ s (writeAll c .input config shapes)
        (fun label => sketchAll c label config shapes) fun _ => Eq
  | [], _, _, k, config, s, _, _, _, hs => by
    simp only [writeAll, sketchAll]
    exact .pure hs rfl
  | t :: rest, ha, hm, k, config, s, hd, hk, hside, hs => by
    rw [AgreeAll] at ha
    rw [List.flatMap_cons] at hm
    rw [foldedList, List.flatMap_cons] at hk
    simp only [writeAll, sketchAll]
    refine (follows_write hΔ t ha.1 (fun key h => hm key (List.mem_append_left _ h)) k config s hd
      (fun key h => hk key (List.mem_append_left _ h)) hside hs).bind
      fun s' x y hs' _ hxy _ => ?_
    subst hxy
    exact follows_wrapped (follows_writeAll hΔ rest ha.2
      (fun key h => hm key (List.mem_append_right _ h)) k config s' hd
      (fun key h => hk key (List.mem_append_right _ h)) hside hs') fun es => y :: es

theorem follows_writeSome (hΔ : Δ.Fit c rank) : (shapes : List Shape) → AgreeAll Δ shapes →
    (∀ key ∈ shapes.flatMap refs, mentioned key) → ∀ (k : Nat) (config : Config) (s : Sheet),
      (∀ o r, Δ o = some (.record r) → rank o < k → Describes c r) →
      (∀ key ∈ (foldedList shapes).flatMap refs, rank key.owner < k) →
      sideIn config .input = .input → s.Fair c Δ →
      Follows c Δ ⟨rank, k, mentioned⟩ s (writeSome c .input config shapes)
        (fun label => sketchSome c label config shapes) fun _ => Eq
  | [], _, _, k, config, s, _, _, _, hs => by
    simp only [writeSome, sketchSome]
    exact .pure hs rfl
  | t :: rest, ha, hm, k, config, s, hd, hk, hside, hs => by
    rw [AgreeAll] at ha
    rw [List.flatMap_cons] at hm
    rw [foldedList, List.flatMap_cons] at hk
    simp only [writeSome, sketchSome]
    refine (follows_write hΔ t ha.1 (fun key h => hm key (List.mem_append_left _ h)) k config s hd
      (fun key h => hk key (List.mem_append_left _ h)) hside hs).attempt.bind
      fun s' x es hs' _ hxy _ => ?_
    subst hxy
    exact follows_wrapped (follows_writeSome hΔ rest ha.2
      (fun key h => hm key (List.mem_append_right _ h)) k config s' hd
      (fun key h => hk key (List.mem_append_right _ h)) hside hs') fun es => x.toList ++ es

theorem follows_writeFields (hΔ : Δ.Fit c rank) : (fields : List (Field Shape)) → AgreeFields Δ fields →
    (∀ key ∈ fields.flatMap fun f => f.type.refs, mentioned key) →
    ∀ (k : Nat) (config : Config) (s : Sheet),
      (∀ o r, Δ o = some (.record r) → rank o < k → Describes c r) →
      (∀ f ∈ fields, ∀ key ∈ f.type.folded.refs, rank key.owner < k) →
      sideIn config .input = .input → InertConfig config →
      (∀ f ∈ fields, InertField c config (foldedField f)) → s.Fair c Δ →
      Follows c Δ ⟨rank, k, mentioned⟩ s (writeFields c .input config fields)
        (fun label => sketchFields c label config fields)
        fun ds => List.Forall₂ (Echoes ds)
  | [], _, _, k, config, s, _, _, _, _, _, hs => by
    simp only [writeFields]
    exact .pure hs .nil
  | ⟨name, t, marks, facts, ruled⟩ :: rest, ha, hm, k, config, s, hd, hk, hside, hc, hq, hs => by
    rw [AgreeFields] at ha
    rw [List.flatMap_cons] at hm
    have hqf := hq _ (List.mem_cons_self ..)
    simp only [writeFields, sketchFields_cons, sketchField, bind_assoc]
    refine (follows_write hΔ t ha.1 (fun key h => hm key (List.mem_append_left _ h)) k config s hd
      (hk _ (List.mem_cons_self ..)) hside hs).bind fun s₁ x y hs₁ _ hxy hb => ?_
    subst hxy
    rw [hside]
    refine (follows_property hs₁ config hqf.notes hqf.fallback hqf.title t.wantsTitle
      (citesOnly_shown hc hqf.type hb)).bind fun s₂ e e' hs₂ _ he _ => ?_
    refine (follows_writeFields hΔ rest ha.2 (fun key h => hm key (List.mem_append_right _ h)) k config
      s₂ hd (fun f hf => hk f (List.mem_cons_of_mem _ hf)) hside hc
      (fun f hf => hq f (List.mem_cons_of_mem _ hf)) hs₂).bind fun s₃ qs ps hs₃ hgrows hps _ => ?_
    refine .pure hs₃ (.cons ⟨rfl, rfl, ?_⟩ hps)
    rcases he with he | ⟨label, target, hr, ht, he⟩
    · exact .inl he
    · exact .inr ⟨label, target, hr, hgrows.definitions label target ht, he⟩
end

end Shape
end Procedoc
