import Mathlib.Data.Bool.Basic
import Mathlib.Data.List.Forall2
import Procedoc.Proofs.Shaping.Outline

/-! # Working on types

Work on a type gives, up to what is in place, the outline of the type (`works_shapeOf`), wherever
opening a model gives a reference to it.  The workbench stays good on the way: all that is defined
on it looks like its owner, and no reference leads nowhere. -/
set_option autoImplicit false

/-! ## Computations and their results -/

namespace ExceptT
variable {ε σ α β : Type}

/-- What a computation gives, and the state after it. -/
def result (x : ExceptT ε (StateM σ) α) (s : σ) : Except ε α × σ := x.run s

@[simp] theorem result_pure (a : α) (s : σ) :
    (pure a : ExceptT ε (StateM σ) α).result s = (.ok a, s) := rfl

@[simp] theorem result_throw (e : ε) (s : σ) :
    (throw e : ExceptT ε (StateM σ) α).result s = (.error e, s) := rfl

@[simp] theorem result_get (s : σ) : (get : ExceptT ε (StateM σ) σ).result s = (.ok s, s) := rfl

@[simp] theorem result_set (s s' : σ) :
    (set s' : ExceptT ε (StateM σ) PUnit).result s = (.ok ⟨⟩, s') := rfl

@[simp] theorem result_modify (f : σ → σ) (s : σ) :
    (modify f : ExceptT ε (StateM σ) PUnit).result s = (.ok ⟨⟩, f s) := rfl

theorem result_bind (x : ExceptT ε (StateM σ) α) (f : α → ExceptT ε (StateM σ) β) (s : σ) :
    (x >>= f).result s = match x.result s with
      | (.ok a, s') => (f a).result s'
      | (.error e, s') => (.error e, s') := by
  change (match x.result s with
    | (r, s') => ExceptT.bindCont f r s') = _
  rcases x.result s with ⟨a | e, s'⟩ <;> rfl

theorem result_tryCatch (x : ExceptT ε (StateM σ) α) (f : ε → ExceptT ε (StateM σ) α) (s : σ) :
    (tryCatch x f).result s = match x.result s with
      | (.ok a, s') => (.ok a, s')
      | (.error e, s') => (f e).result s' := by
  simp only [result, tryCatch, tryCatchThe, MonadExceptOf.tryCatch, ExceptT.tryCatch, ExceptT.run_mk,
    bind, StateT.bind]
  rcases h : ExceptT.run x s with ⟨a | e, s'⟩
  all_goals
    rw [ExceptT.run] at h
    simp only [h]
    rfl

end ExceptT

namespace Procedoc
open ExceptT (result_pure result_throw result_get result_set result_modify result_bind
  result_tryCatch)

theorem exists_of_bind_eq_ok {ε α β : Type} {x : Except ε α} {f : α → Except ε β} {b : β}
    (h : (x >>= f) = .ok b) : ∃ a, x = .ok a ∧ f a = .ok b := by
  cases x with
  | error e => cases h
  | ok a => exact ⟨a, rfl, h⟩

/-! ## Definitions under keys -/

namespace Definitions

theorem find?_put (key : Key) (d : Shape) (ds : Definitions) (key' : Key) :
    (ds.put key d).find? key' = if key = key' then some d else ds.find? key' := by
  induction ds with
  | nil => simp only [put, find?, List.lookup_cons, List.lookup_nil]; grind
  | cons p rest ih =>
    obtain ⟨k, s⟩ := p
    simp only [put, find?, List.lookup_cons] at ih ⊢
    by_cases h : k = key
    · rw [if_pos h, List.lookup_cons]
      grind
    · rw [if_neg h, List.lookup_cons, ih]
      grind

theorem mem_of_find? {ds : Definitions} {key : Key} {d : Shape} (h : ds.find? key = some d) :
    (key, d) ∈ ds := by
  induction ds with
  | nil => cases h
  | cons p rest ih =>
    obtain ⟨k, s⟩ := p
    rw [find?, List.lookup_cons] at h
    by_cases hk : key = k
    · have hb : (key == k) = true := by simpa using hk
      rw [hb] at h
      cases h
      rw [hk]
      exact List.mem_cons_self ..
    · have hb : (key == k) = false := by simpa using hk
      rw [hb] at h
      exact List.mem_cons_of_mem _ (ih h)

/-- Definitions with others written over them. -/
def putAll (ds : Definitions) (others : Definitions) : Definitions :=
  others.foldl (fun ds p => ds.put p.1 p.2) ds

theorem mem_or_of_find?_putAll {ds others : Definitions} {key : Key} {d : Shape}
    (h : (ds.putAll others).find? key = some d) : (key, d) ∈ others ∨ ds.find? key = some d := by
  induction others generalizing ds with
  | nil => exact .inr h
  | cons p rest ih =>
    rcases ih h with hr | hp
    · exact .inl (List.mem_cons_of_mem _ hr)
    · rw [find?_put] at hp
      split at hp
      · rename_i hk
        cases hp
        rw [← hk]
        exact .inl (List.mem_cons_self ..)
      · exact .inr hp

theorem isSome_find?_putAll {ds others : Definitions} {key : Key}
    (h : key ∈ others.map Prod.fst ∨ (ds.find? key).isSome) :
    ((ds.putAll others).find? key).isSome := by
  induction others generalizing ds with
  | nil =>
    rcases h with h | h
    · cases h
    · exact h
  | cons p rest ih =>
    refine ih ?_
    rw [find?_put]
    by_cases hk : p.1 = key
    · rw [if_pos hk]
      exact .inr rfl
    · rw [if_neg hk]
      rcases h with h | h
      · rw [List.map_cons, List.mem_cons] at h
        rcases h with h | h
        · exact absurd h.symm hk
        · exact .inl h
      · exact .inr h

end Definitions

/-! ## Good workbenches -/

variable {Δ : Outlines} {bad : Stop → Prop} {w w' : Workbench}

/-- Whether all that is defined looks like its owner, and no reference leads nowhere. -/
structure Workbench.Good (Δ : Outlines) (w : Workbench) : Prop where
  defines : ∀ key d, w.definitions.find? key = some d → d.key? = some key ∧ d.Agrees Δ
  closed : ∀ key d, w.definitions.find? key = some d →
    ∀ k ∈ d.refs, (w.definitions.find? k).isSome

/-- Whether a workbench has but more definitions than another. -/
structure Workbench.Grows (w w' : Workbench) : Prop where
  keeps : ∀ key, (w.definitions.find? key).isSome → (w'.definitions.find? key).isSome
  remarks : w'.remarks = w.remarks
  made : w'.made = w.made

theorem Workbench.Grows.refl (w : Workbench) : w.Grows w := ⟨fun _ h => h, rfl, rfl⟩

theorem Workbench.Grows.trans {w'' : Workbench} (h : w.Grows w') (h' : w'.Grows w'') :
    w.Grows w'' :=
  ⟨fun key hk => h'.keeps key (h.keeps key hk), h'.remarks.trans h.remarks, h'.made.trans h.made⟩

namespace Shaping

/-- A shape on a workbench, and its outline. -/
structure Laid (Δ : Outlines) (w : Workbench) (s o : Shape) : Prop where
  folded : s.folded = o
  agrees : s.Agrees Δ
  isOpen : s.isOpen
  defined : ∀ key ∈ s.refs, (w.definitions.find? key).isSome

theorem Laid.grow {s o : Shape} (h : Laid Δ w s o) (hw : w.Grows w') : Laid Δ w' s o :=
  ⟨h.folded, h.agrees, h.isOpen, fun key hk => hw.keeps key (h.defined key hk)⟩

theorem Laid.leads {s o : Shape} (h : Laid Δ w s o) (hw : w.Good Δ) :
    s.Leads Δ w.definitions.find? := by
  intro key hk
  obtain ⟨d, hd⟩ := Option.isSome_iff_exists.mp (h.defined key hk)
  exact ⟨d, hd, hw.defines key d hd⟩

/-- Whether work keeps the workbench good and gives what is expected, or stops as expected or in a
way that is allowed for. -/
structure Works {α β : Type} (Δ : Outlines) (bad : Stop → Prop) (w : Workbench) (x : Shaping α)
    (expected : Except Stop β) (rel : Workbench → α → β → Prop) : Prop where
  good : (x.result w).2.Good Δ
  grows : w.Grows (x.result w).2
  ok : ∀ a, (x.result w).1 = .ok a → ∃ b, expected = .ok b ∧ rel (x.result w).2 a b
  error : ∀ e, (x.result w).1 = .error e → bad e ∨ (expected = .error e ∧ e ≠ .unresolved)

variable {α β γ δ : Type} {rel : Workbench → α → β → Prop} {rel' : Workbench → γ → δ → Prop}

theorem Works.pure {a : α} {b : β} (hw : w.Good Δ) (h : rel w a b) :
    Works Δ bad w (pure a) (.ok b) rel where
  good := hw
  grows := .refl w
  ok := by
    intro a' ha
    cases ha
    exact ⟨b, rfl, h⟩
  error := nofun

theorem Works.throw {e : Stop} (he : e ≠ .unresolved) (hw : w.Good Δ) :
    Works Δ bad w (throw e : Shaping α) (.error e : Except Stop β) rel where
  good := hw
  grows := .refl w
  ok := nofun
  error := by
    intro e' he'
    cases he'
    exact .inr ⟨rfl, he⟩

theorem Works.of_bad {e : Stop} {o : Except Stop β} (hw : w.Good Δ) (he : bad e) :
    Works Δ bad w (MonadExcept.throw e : Shaping α) o rel where
  good := hw
  grows := .refl w
  ok := nofun
  error := by
    intro e' he'
    cases he'
    exact .inl he

theorem Works.bind {x : Shaping α} {o : Except Stop β} {f : α → Shaping γ}
    {g : β → Except Stop δ} (hx : Works Δ bad w x o rel)
    (hf : ∀ w' a b, w'.Good Δ → w.Grows w' → rel w' a b → Works Δ bad w' (f a) (g b) rel') :
    Works Δ bad w (x >>= f) (o >>= g) rel' := by
  obtain ⟨hgood, hgrows, hok, herror⟩ := hx
  rcases hr : x.result w with ⟨a | a, w'⟩
  · rw [hr] at hgood hgrows herror
    have hres : (x >>= f).result w = (.error a, w') := by rw [result_bind, hr]
    refine ⟨by rwa [hres], by rwa [hres], by simp [hres], ?_⟩
    intro e he
    rw [hres] at he
    cases he
    rcases herror a rfl with hb | ⟨rfl, hne⟩
    · exact .inl hb
    · exact .inr ⟨rfl, hne⟩
  · rw [hr] at hgood hgrows hok
    obtain ⟨b, rfl, hrel⟩ := hok a rfl
    obtain ⟨hgood', hgrows', hok', herror'⟩ := hf w' a b hgood hgrows hrel
    have hres : (x >>= f).result w = (f a).result w' := by rw [result_bind, hr]
    exact ⟨by rwa [hres], by rw [hres]; exact hgrows.trans hgrows', by rw [hres]; exact hok',
      by rw [hres]; exact herror'⟩

theorem Works.of_result {x y : Shaping α} {o : Except Stop β} (hy : Works Δ bad w y o rel)
    (h : x.result w = y.result w) : Works Δ bad w x o rel :=
  ⟨by rw [h]; exact hy.good, by rw [h]; exact hy.grows, by rw [h]; exact hy.ok,
    by rw [h]; exact hy.error⟩

theorem Works.expecting {x : Shaping α} {o : Except Stop β} (hx : Works Δ bad w x o rel) :
    Works Δ bad w x o fun w a b => rel w a b ∧ o = .ok b where
  good := hx.good
  grows := hx.grows
  ok := by
    intro a ha
    obtain ⟨b, hb, hrel⟩ := hx.ok a ha
    exact ⟨b, hb, hrel, hb⟩
  error := hx.error

theorem result_attempt (x : Shaping Shape) (w : Workbench) :
    (attempt x).result w = (attempted (x.result w).1, (x.result w).2) := by
  rw [Shaping.attempt, result_tryCatch, result_bind]
  rcases x.result w with ⟨e | s, w'⟩
  · cases e <;> rfl
  · rfl

theorem attempted_error {e : Stop} (h : e ≠ .unsupported) : attempted (.error e) = .error e := by
  cases e <;> first | rfl | exact absurd rfl h

theorem Works.attempt {x : Shaping Shape} {o : Except Stop Shape} (hbad : ¬ bad .unsupported)
    (hx : Works Δ bad w x o (Laid Δ)) :
    Works Δ bad w (attempt x) (attempted o) fun w => Option.Rel (Laid Δ w) := by
  obtain ⟨hgood, hgrows, hok, herror⟩ := hx
  have hres := result_attempt x w
  rcases hr : x.result w with ⟨e | s, w'⟩
  · rw [hr] at hgood hgrows herror hres
    by_cases he : e = .unsupported
    · subst he
      have ho := ((herror _ rfl).resolve_left hbad).1
      subst ho
      simp only [attempted] at hres
      refine ⟨by rwa [hres], by rwa [hres], ?_, by simp [hres]⟩
      intro a ha
      rw [hres] at ha
      cases ha
      exact ⟨none, rfl, .none⟩
    · rw [attempted_error he] at hres
      refine ⟨by rwa [hres], by rwa [hres], by simp [hres], ?_⟩
      intro e' he'
      rw [hres] at he'
      cases he'
      rcases herror e rfl with hb | ⟨rfl, hne⟩
      · exact .inl hb
      · exact .inr ⟨attempted_error he, hne⟩
  · rw [hr] at hgood hgrows hok hres
    obtain ⟨b, rfl, hrel⟩ := hok s rfl
    simp only [attempted] at hres
    refine ⟨by rwa [hres], by rwa [hres], ?_, by simp [hres]⟩
    intro a ha
    rw [hres] at ha ⊢
    cases ha
    exact ⟨some b, rfl, .some hrel⟩

/-! ## Marks -/

theorem Laid.bound {s o : Shape} (h : Laid Δ w s o) (hw : w.Good Δ) (b : Bound) :
    Laid Δ w (s.bound w.definitions.find? b) (o.foldedBound b) where
  folded := by rw [Shape.folded_bound b h.isOpen h.agrees (h.leads hw), h.folded]
  agrees := Shape.agrees_bound b h.agrees (h.leads hw)
  isOpen := Shape.isOpen_bound _ b h.isOpen
  defined := by
    intro key hk
    rcases Shape.mem_refs_bound h.agrees hk with hk | ⟨k, -, d, hd, hkd⟩
    · exact h.defined key hk
    · exact hw.closed k d hd key hkd

theorem Laid.boundAll {s o : Shape} (h : Laid Δ w s o) (hw : w.Good Δ) (bs : List Bound) :
    Laid Δ w (s.boundAll w.definitions.find? bs) (bs.foldl (fun s b => s.foldedBound b) o) := by
  induction bs generalizing s o with
  | nil => exact h
  | cons b rest ih => exact ih (h.bound hw b)

theorem Laid.note {s o : Shape} (h : Laid Δ w s o) (notes : Notes) :
    Laid Δ w (s.note notes) (o.note notes) where
  folded := by rw [Shape.folded_note, h.folded]
  agrees := Shape.agrees_note notes h.agrees
  isOpen := Shape.isOpen_note notes h.isOpen
  defined := by simpa using h.defined

theorem annotate_eq {s o : Shape} (h : Laid Δ w s o) (notes : Notes) :
    annotate notes s = return s.note notes := by
  cases s with
  | shared anchor => exact absurd h.agrees (by rw [Shape.Agrees]; exact not_false)
  | _ => rfl

theorem works_mark {bare : Shaping Shape} {o : Except Stop Shape} (hbad : ¬ bad .unsupported)
    (hbare : ∀ w : Workbench, w.Good Δ → Works Δ bad w bare o (Laid Δ)) (hw : w.Good Δ)
    {s so : Option Shape} (h : Option.Rel (Laid Δ w) s so) (m : Mark) :
    Works Δ bad w (mark bare s m) (outlineMark o so m) fun w => Option.Rel (Laid Δ w) := by
  cases h with
  | none =>
    cases m with
    | check moment =>
      cases moment with
      | instead => exact .pure hw (.some ⟨rfl, trivial, rfl, by simp⟩)
      | _ => exact .pure hw .none
    | _ => exact .pure hw .none
  | @some s so h =>
    cases m with
    | check moment =>
      cases moment with
      | instead =>
        refine (Works.attempt hbad (hbare w hw)).bind fun w' a b hw' hgrows hab => ?_
        cases hab with
        | none => exact .pure hw' (.some ⟨rfl, trivial, rfl, by simp⟩)
        | @some a b hab =>
          refine .pure hw' (.some ⟨?_, ?_, rfl, ?_⟩)
          · rw [Shape.folded, h.folded, hab.folded]
          · rw [Shape.Agrees]
            exact ⟨h.agrees, hab.agrees⟩
          · intro key hk
            rw [Shape.refs_replaced, List.mem_append] at hk
            rcases hk with hk | hk
            · exact hgrows.keeps key (h.defined key hk)
            · exact hab.defined key hk
      | _ =>
        refine .pure hw (.some ⟨by rw [Shape.folded, h.folded], ?_, rfl, by simpa using h.defined⟩)
        rw [Shape.Agrees]
        exact h.agrees
    | bound b =>
      have hres : (mark bare (some s) (.bound b)).result w =
          (pure (some (s.bound w.definitions.find? b)) : Shaping (Option Shape)).result w := rfl
      exact Works.of_result (.pure hw (.some (h.bound hw b))) hres
    | field facts bounds =>
      have hb := h.boundAll hw bounds
      have hres : (mark bare (some s) (.field facts bounds)).result w = (pure (some
          ((s.boundAll w.definitions.find? bounds).note facts.notes)) :
            Shaping (Option Shape)).result w := by
        change ((do
          let w ← get
          return some (← annotate facts.notes (s.boundAll w.definitions.find? bounds)) :
            Shaping (Option Shape))).result w = _
        rw [result_bind, result_get]
        simp only [annotate_eq hb]
        rfl
      exact Works.of_result (.pure hw (.some (hb.note facts.notes))) hres

theorem works_marks {bare : Shaping Shape} {o : Except Stop Shape} (hbad : ¬ bad .unsupported)
    (hbare : ∀ w : Workbench, w.Good Δ → Works Δ bad w bare o (Laid Δ)) (hw : w.Good Δ)
    {s so : Option Shape} (h : Option.Rel (Laid Δ w) s so) (marks : List Mark) :
    Works Δ bad w (marks.foldlM (mark bare) s) (marks.foldlM (outlineMark o) so)
      fun w => Option.Rel (Laid Δ w) := by
  induction marks generalizing w s so with
  | nil => exact .pure hw h
  | cons m rest ih =>
    rw [List.foldlM_cons, List.foldlM_cons]
    exact (works_mark hbad hbare hw h m).bind fun w' a b hw' _ hab => ih hw' hab

theorem works_markAll {bare : Shaping Shape} {o : Except Stop Shape} (hbad : ¬ bad .unsupported)
    (hbare : ∀ w : Workbench, w.Good Δ → Works Δ bad w bare o (Laid Δ)) (hw : w.Good Δ)
    (marks : List Mark) :
    Works Δ bad w (markAll bare marks) (outlineMarks o marks) (Laid Δ) := by
  refine (Works.attempt hbad (hbare w hw)).bind fun w₁ a b hw₁ _ hab => ?_
  refine (works_marks hbad hbare hw₁ hab marks).bind fun w₂ s so hw₂ _ hs => ?_
  cases hs with
  | none => exact .throw nofun hw₂
  | some h => exact .pure hw₂ h

theorem Laid.withDefaults {s o : Shape} (h : Laid Δ w s o) (marks : List Mark) :
    Laid Δ w (withDefaults marks s) (withDefaults marks o) := by
  rw [Shaping.withDefaults, Shaping.withDefaults]
  induction Field.fallbacksOf marks generalizing s o with
  | nil => exact h
  | cons f rest ih =>
    refine ih ?_
    dsimp only
    split
    · exact h
    · refine ⟨by rw [Shape.folded, h.folded], ?_, rfl, by simpa using h.defined⟩
      rw [Shape.Agrees]
      exact h.agrees

/-! ## Definitions -/

theorem works_define {key : Key} {d : Shape} (hw : w.Good Δ) (hk : d.key? = some key)
    (ha : d.Agrees Δ) (hr : ∀ k ∈ d.refs, (w.definitions.find? k).isSome) :
    Works Δ bad w (define key d) (.ok (.reference key)) (Laid Δ) := by
  have hres : (define key d).result w =
      (.ok (.reference key), { w with definitions := w.definitions.put key d }) := rfl
  have hkeeps : ∀ k, (w.definitions.find? k).isSome →
      ((w.definitions.put key d).find? k).isSome := by
    intro k h
    rw [Definitions.find?_put]
    split
    · rfl
    · exact h
  refine ⟨?_, ?_, ?_, by simp [hres]⟩
  · rw [hres]
    constructor
    · intro k s hs
      simp only [Definitions.find?_put] at hs
      split at hs
      · rename_i heq
        cases hs
        exact ⟨heq ▸ hk, ha⟩
      · exact hw.defines k s hs
    · intro k s hs k' hk'
      refine hkeeps k' ?_
      simp only [Definitions.find?_put] at hs
      split at hs
      · cases hs
        exact hr k' hk'
      · exact hw.closed k s hs k' hk'
  · rw [hres]
    exact ⟨hkeeps, rfl, rfl⟩
  · intro a h
    rw [hres] at h ⊢
    cases h
    refine ⟨_, rfl, rfl, Shape.agrees_of_key? hk ha, rfl, ?_⟩
    intro k hk'
    rw [Shape.refs_reference, List.mem_singleton] at hk'
    subst hk'
    simp [Definitions.find?_put]

end Shaping

/-- Whether a layout is that of a record under a key, all else in it looks like its owner, and no
reference leads nowhere. -/
structure Layout.Good (Δ : Outlines) (key : Key) (o : Record Shape) (l : Layout) : Prop where
  top : ∃ fields, l.top = .record key { o with fields } ∧
    fields.map Shape.foldedField = o.fields ∧ Shape.AgreeFields Δ fields
  defines : ∀ p ∈ l.definitions, p.2.key? = some p.1 ∧ p.2.Agrees Δ
  closedTop : ∀ k ∈ l.top.refs, k ∈ l.definitions.map Prod.fst
  closed : ∀ p ∈ l.definitions, ∀ k ∈ p.2.refs, k ∈ l.definitions.map Prod.fst

theorem Layout.Good.mono {Δ' : Outlines} {key : Key} {o : Record Shape} {l : Layout}
    (h : l.Good Δ key o) (hΔ : ∀ o d, Δ o = some d → Δ' o = some d) : l.Good Δ' key o where
  top := by
    obtain ⟨fields, htop, hmap, ha⟩ := h.top
    exact ⟨fields, htop, hmap, Shape.AgreeFields.mono hΔ fields ha⟩
  defines := fun p hp => ⟨(h.defines p hp).1, (h.defines p hp).2.mono hΔ⟩
  closedTop := h.closedTop
  closed := h.closed

theorem Layout.Good.agrees {key : Key} {o : Record Shape} {l : Layout} (h : l.Good Δ key o)
    (hΔ : Δ key.owner = some (.record o)) : l.top.Agrees Δ := by
  obtain ⟨fields, htop, hmap, ha⟩ := h.top
  rw [htop, Shape.Agrees, hmap]
  exact ⟨hΔ, ha⟩

namespace Shaping

theorem good_putAll {l : Layout} {key : Key} {o : Record Shape} (hl : l.Good Δ key o)
    (hw : w.Good Δ) :
    ({ w with definitions := w.definitions.putAll l.definitions } : Workbench).Good Δ where
  defines := by
    intro k d hd
    rcases Definitions.mem_or_of_find?_putAll hd with hm | hd
    · exact hl.defines (k, d) hm
    · exact hw.defines k d hd
  closed := by
    intro k d hd k' hk'
    refine Definitions.isSome_find?_putAll ?_
    rcases Definitions.mem_or_of_find?_putAll hd with hm | hd
    · exact .inl (hl.closed (k, d) hm k' hk')
    · exact .inr (hw.closed k d hd k' hk')

theorem result_unpack {l : Layout} {key : Key} {r : Record Shape} (hr : l.top = .record key r) :
    (unpack l).result w = (.ok (.reference key),
      { w with definitions := (w.definitions.putAll l.definitions).put key l.top }) := by
  rw [unpack, hr]
  rfl

theorem works_unpack {l : Layout} {key : Key} {o : Record Shape} (hl : l.Good Δ key o)
    (hΔ : Δ key.owner = some (.record o)) (hw : w.Good Δ) :
    Works Δ bad w (unpack l) (.ok (.reference key)) (Laid Δ) := by
  obtain ⟨fields, hr, -⟩ := hl.top
  have hd : Works Δ bad { w with definitions := w.definitions.putAll l.definitions }
      (define key l.top) (.ok (.reference key)) (Laid Δ) := by
    refine works_define (good_putAll hl hw) (by rw [hr]; rfl) (hl.agrees hΔ) ?_
    intro k hk
    exact Definitions.isSome_find?_putAll (.inl (hl.closedTop k hk))
  have hres : (unpack l).result w = (define key l.top).result
      { w with definitions := w.definitions.putAll l.definitions } := result_unpack hr
  have hgrows : w.Grows { w with definitions := w.definitions.putAll l.definitions } :=
    ⟨fun k hk => Definitions.isSome_find?_putAll (.inr hk), rfl, rfl⟩
  exact ⟨by rw [hres]; exact hd.good, by rw [hres]; exact hgrows.trans hd.grows,
    by rw [hres]; exact hd.ok, by rw [hres]; exact hd.error⟩

theorem works_enumeration {c : Catalog} {name : String} {e : Enumeration}
    (he : c.enumeration? name = some e)
    (hΔ : Δ (.enumeration name) = some (.enumeration e)) (hw : w.Good Δ) :
    Works Δ bad w (enumeration c name) (.ok (.reference (.enumeration name))) (Laid Δ) := by
  by_cases hd : (w.definitions.find? (.enumeration name)).isSome
  · have hres : (enumeration c name).result w =
        (pure (.reference (.enumeration name)) : Shaping Shape).result w := by
      rw [enumeration, result_bind, result_get]
      simp only [hd, if_true, result_pure]
    refine Works.of_result (.pure hw ⟨rfl, ?_, rfl, by simpa using hd⟩) hres
    rw [Shape.Agrees, Key.enumeration, hΔ]
    rfl
  · have hres : (enumeration c name).result w =
        (define (.enumeration name) (.enumeration (.enumeration name) e)).result w := by
      rw [enumeration, result_bind, result_get]
      simp only [hd, he]
      rfl
    have hdef : Works Δ bad w (define (.enumeration name) (.enumeration (.enumeration name) e))
        (.ok (.reference (.enumeration name))) (Laid Δ) := by
      refine works_define hw rfl ?_ (by simp)
      rw [Shape.Agrees, Key.enumeration, hΔ]
    exact hdef.of_result hres

/-! ## Unions -/

theorem forall₂_members {R : Shape → Shape → Prop} (p : TypeExpr → Bool) {types : List TypeExpr}
    {shapes os : List Shape} (h : List.Forall₂ R shapes os) :
    List.Forall₂ R (((types.zip shapes).filter fun m => p m.1).map Prod.snd)
      (((types.zip os).filter fun m => p m.1).map Prod.snd) := by
  induction h generalizing types with
  | nil => simp
  | cons h _ ih =>
    cases types with
    | nil => simp
    | cons a types =>
      rw [List.zip_cons_cons, List.zip_cons_cons, List.filter_cons, List.filter_cons]
      dsimp only
      split
      · exact .cons h ih
      · exact ih

theorem any_zip_eq {R : Shape → Shape → Prop} (p : TypeExpr → Bool) {types : List TypeExpr}
    {shapes os : List Shape} (h : List.Forall₂ R shapes os) :
    ((types.zip shapes).any fun m => p m.1) = (types.zip os).any fun m => p m.1 := by
  induction h generalizing types with
  | nil => simp
  | cons _ _ ih =>
    cases types with
    | nil => simp
    | cons a types => rw [List.zip_cons_cons, List.zip_cons_cons, List.any_cons, List.any_cons, ih]

theorem exists_of_forall₂ {α β : Type} {R : α → β → Prop} {xs : List α} {ys : List β}
    (h : List.Forall₂ R xs ys) {x : α} (hx : x ∈ xs) : ∃ y ∈ ys, R x y := by
  induction h with
  | nil => cases hx
  | cons hr _ ih =>
    rcases List.mem_cons.mp hx with rfl | hx
    · exact ⟨_, List.mem_cons_self .., hr⟩
    · obtain ⟨y, hy, hr'⟩ := ih hx
      exact ⟨y, List.mem_cons_of_mem _ hy, hr'⟩

theorem map_folded_eq {shapes os : List Shape} (h : List.Forall₂ (Laid Δ w) shapes os) :
    shapes.map Shape.folded = os := by
  induction h with
  | nil => rfl
  | cons h _ ih => rw [List.map_cons, h.folded, ih]

theorem agreeAll_of_laid {shapes os : List Shape} (h : List.Forall₂ (Laid Δ w) shapes os) :
    Shape.AgreeAll Δ shapes := by
  rw [Shape.agreeAll_iff]
  intro s hs
  obtain ⟨o, -, hl⟩ := exists_of_forall₂ h hs
  exact hl.agrees

theorem defined_of_laid {shapes os : List Shape} (h : List.Forall₂ (Laid Δ w) shapes os) :
    ∀ key ∈ shapes.flatMap Shape.refs, (w.definitions.find? key).isSome := by
  intro key hk
  obtain ⟨s, hs, hk⟩ := List.mem_flatMap.mp hk
  obtain ⟨o, -, hl⟩ := exists_of_forall₂ h hs
  exact hl.defined key hk

theorem laid_union {shapes os : List Shape} (h : List.Forall₂ (Laid Δ w) shapes os) :
    Laid Δ w (.union shapes) (.union os) where
  folded := by rw [Shape.folded, Shape.foldedList_eq, map_folded_eq h]
  agrees := by
    rw [Shape.Agrees]
    exact agreeAll_of_laid h
  isOpen := rfl
  defined := by
    rw [Shape.refs_union]
    exact defined_of_laid h

theorem laid_tuple {shapes os : List Shape} (h : List.Forall₂ (Laid Δ w) shapes os) :
    Laid Δ w (.tuple shapes []) (.tuple os []) where
  folded := by rw [Shape.folded, Shape.foldedList_eq, map_folded_eq h]
  agrees := by
    rw [Shape.Agrees]
    exact agreeAll_of_laid h
  isOpen := rfl
  defined := by
    rw [Shape.refs_tuple]
    exact defined_of_laid h

theorem Laid.nullable {s o : Shape} (h : Laid Δ w s o) : Laid Δ w (.nullable s) (.nullable o) where
  folded := by rw [Shape.folded, h.folded]
  agrees := by
    rw [Shape.Agrees]
    exact h.agrees
  isOpen := h.isOpen
  defined := by simpa using h.defined

/-- The only shape, or the union of all. -/
def joined : List Shape → Shape
  | [s] => s
  | shapes => .union shapes

theorem unionOf_eq (members : List (TypeExpr × Shape)) : unionOf members =
    if members.any fun m => m.1.isNone then
      .nullable (joined ((members.filter fun m => !m.1.isNone).map Prod.snd))
    else joined ((members.filter fun m => !m.1.isNone).map Prod.snd) := rfl

theorem laid_joined {shapes os : List Shape} (h : List.Forall₂ (Laid Δ w) shapes os) :
    Laid Δ w (joined shapes) (joined os) := by
  cases h with
  | nil => exact laid_union .nil
  | cons h₁ hr =>
    cases hr with
    | nil => exact h₁
    | cons h₂ hr => exact laid_union (.cons h₁ (.cons h₂ hr))

theorem laid_unionOf {types : List TypeExpr} {shapes os : List Shape}
    (h : List.Forall₂ (Laid Δ w) shapes os) :
    Laid Δ w (unionOf (types.zip shapes)) (unionOf (types.zip os)) := by
  have hbase : Laid Δ w
      (joined (((types.zip shapes).filter fun m => !m.1.isNone).map Prod.snd))
      (joined (((types.zip os).filter fun m => !m.1.isNone).map Prod.snd)) :=
    laid_joined (forall₂_members (fun a => !a.isNone) h)
  rw [unionOf_eq, unionOf_eq, any_zip_eq (fun a => a.isNone) h]
  split
  · exact hbase.nullable
  · exact hbase

end Shaping

/-! ## Types -/

mutual
/-- Whether the enumerations and models in a type are of some kind, and no record in it was put
together on the spot. -/
def TypeExpr.Within (E P : String → Prop) : TypeExpr → Prop
  | .plain _ | .literal _ => True
  | .model name => P name
  | .enumeration name => E name
  | .container _ a | .marked a _ => Within E P a
  | .tuple types | .union _ types => AllWithin E P types
  | .dict k v => Within E P k ∧ Within E P v
  | .record _ => False

/-- Whether the enumerations and models in the types of a list are of some kind. -/
def TypeExpr.AllWithin (E P : String → Prop) : List TypeExpr → Prop
  | [] => True
  | a :: rest => Within E P a ∧ AllWithin E P rest
end

mutual
theorem TypeExpr.Within.mono {E P Q : String → Prop} (hPQ : ∀ name, P name → Q name) :
    (a : TypeExpr) → a.Within E P → a.Within E Q
  | .plain _, _ | .literal _, _ => trivial
  | .model name, h => hPQ name h
  | .enumeration _, h => h
  | .container _ a, h | .marked a _, h => by
    rw [TypeExpr.Within] at h ⊢
    exact TypeExpr.Within.mono hPQ a h
  | .tuple types, h | .union _ types, h => by
    rw [TypeExpr.Within] at h ⊢
    exact TypeExpr.AllWithin.mono hPQ types h
  | .dict k v, h => by
    rw [TypeExpr.Within] at h ⊢
    exact ⟨TypeExpr.Within.mono hPQ k h.1, TypeExpr.Within.mono hPQ v h.2⟩
  | .record _, h => h

theorem TypeExpr.AllWithin.mono {E P Q : String → Prop} (hPQ : ∀ name, P name → Q name) :
    (types : List TypeExpr) → TypeExpr.AllWithin E P types → TypeExpr.AllWithin E Q types
  | [], _ => trivial
  | a :: rest, h => ⟨TypeExpr.Within.mono hPQ a h.1, TypeExpr.AllWithin.mono hPQ rest h.2⟩
end

namespace Shaping
variable {c : Catalog} {E P : String → Prop} {openModel : String → Shaping Shape}

mutual
theorem works_shapeOf (hbad : ¬ bad .unsupported)
    (hΔ : ∀ name, E name → ∃ e, c.enumeration? name = some e ∧
      Δ (.enumeration name) = some (.enumeration e))
    (hopen : ∀ name, P name → ∀ w : Workbench, w.Good Δ →
      Works Δ bad w (openModel name) (.ok (.reference (.model name))) (Laid Δ))
    (sealedAllowed : Bool) : (a : TypeExpr) → a.Within E P → ∀ w : Workbench, w.Good Δ →
      Works Δ bad w (shapeOf c openModel sealedAllowed a) (outline sealedAllowed a) (Laid Δ)
  | .plain p, _, w, hw => by
    rw [shapeOf, outline]
    split
    · exact .throw nofun hw
    · exact .pure hw ⟨rfl, trivial, rfl, by simp⟩
  | .model name, h, w, hw => by
    rw [shapeOf, outline]
    exact hopen name h w hw
  | .enumeration name, h, w, hw => by
    rw [shapeOf, outline]
    obtain ⟨e, he, hΔe⟩ := hΔ name h
    exact works_enumeration he hΔe hw
  | .literal values, _, w, hw => by
    rw [shapeOf, outline]
    split
    · exact .throw nofun hw
    · exact .pure hw ⟨rfl, trivial, rfl, by simp⟩
  | .container k item, h, w, hw => by
    rw [shapeOf, outline]
    rw [TypeExpr.Within] at h
    refine (works_shapeOf hbad hΔ hopen sealedAllowed item h w hw).bind fun w' s o hw' _ hl => ?_
    refine .pure hw' ⟨by rw [Shape.folded, hl.folded], ?_, rfl, by simpa using hl.defined⟩
    rw [Shape.Agrees]
    exact hl.agrees
  | .tuple items, h, w, hw => by
    rw [shapeOf, outline]
    rw [TypeExpr.Within] at h
    refine (works_shapesOf hbad hΔ hopen sealedAllowed items h w hw).bind fun w' s o hw' _ hl => ?_
    exact .pure hw' (laid_tuple hl)
  | .dict k v, h, w, hw => by
    rw [shapeOf, outline]
    rw [TypeExpr.Within] at h
    refine (works_shapeOf hbad hΔ hopen sealedAllowed k h.1 w hw).bind fun w₁ a a' hw₁ _ hk => ?_
    refine (works_shapeOf hbad hΔ hopen sealedAllowed v h.2 w₁ hw₁).bind
      fun w₂ b b' hw₂ hgrows hv => ?_
    refine .pure hw₂ ⟨by rw [Shape.folded, hk.folded, hv.folded], ?_, rfl, ?_⟩
    · rw [Shape.Agrees]
      exact ⟨hk.agrees, hv.agrees⟩
    · intro key hm
      rw [Shape.refs_dict, List.mem_append] at hm
      exact hm.elim ((hk.grow hgrows).defined key) (hv.defined key)
  | .union form members, h, w, hw => by
    rw [shapeOf, outline]
    rw [TypeExpr.Within] at h
    refine (works_shapesOf hbad hΔ hopen sealedAllowed members h w hw).bind
      fun w' s o hw' _ hl => ?_
    exact .pure hw' (laid_unionOf hl)
  | .marked base marks, h, w, hw => by
    rw [shapeOf, outline]
    rw [TypeExpr.Within] at h
    refine (works_markAll hbad (works_shapeOf hbad hΔ hopen sealedAllowed base h) hw marks).bind
      fun w' s o hw' _ hl => ?_
    exact .pure hw' (hl.withDefaults marks)
  | .record _, h, _, _ => by
    rw [TypeExpr.Within] at h
    exact h.elim

theorem works_shapesOf (hbad : ¬ bad .unsupported)
    (hΔ : ∀ name, E name → ∃ e, c.enumeration? name = some e ∧
      Δ (.enumeration name) = some (.enumeration e))
    (hopen : ∀ name, P name → ∀ w : Workbench, w.Good Δ →
      Works Δ bad w (openModel name) (.ok (.reference (.model name))) (Laid Δ))
    (sealedAllowed : Bool) : (types : List TypeExpr) → TypeExpr.AllWithin E P types →
      ∀ w : Workbench, w.Good Δ → Works Δ bad w (shapesOf c openModel sealedAllowed types)
        (outlines sealedAllowed types) fun w => List.Forall₂ (Laid Δ w)
  | [], _, w, hw => by
    rw [shapesOf, outlines]
    exact .pure hw .nil
  | a :: rest, h, w, hw => by
    rw [shapesOf, outlines]
    rw [TypeExpr.AllWithin] at h
    refine (works_shapeOf hbad hΔ hopen sealedAllowed a h.1 w hw).bind fun w₁ s o hw₁ _ hs => ?_
    refine (works_shapesOf hbad hΔ hopen sealedAllowed rest h.2 w₁ hw₁).bind
      fun w₂ ss os hw₂ hgrows hss => ?_
    exact .pure hw₂ (.cons (hs.grow hgrows) hss)
end

/-- A field on a workbench, and its outline. -/
structure LaidField (Δ : Outlines) (w : Workbench) (f o : Field Shape) : Prop where
  eq : Shape.foldedField f = o
  agrees : f.type.Agrees Δ
  defined : ∀ key ∈ f.type.refs, (w.definitions.find? key).isSome

theorem works_shapeFields (hbad : ¬ bad .unsupported)
    (hΔ : ∀ name, E name → ∃ e, c.enumeration? name = some e ∧
      Δ (.enumeration name) = some (.enumeration e))
    (hopen : ∀ name, P name → ∀ w : Workbench, w.Good Δ →
      Works Δ bad w (openModel name) (.ok (.reference (.model name))) (Laid Δ))
    (sealedAllowed : Bool) {fields : List (Field TypeExpr)}
    (h : ∀ f ∈ fields, f.type.Within E P) (hw : w.Good Δ) :
    Works Δ bad w (shapeFields c openModel sealedAllowed fields)
      (outlineFields sealedAllowed fields) fun w => List.Forall₂ (LaidField Δ w) := by
  induction fields generalizing w with
  | nil =>
    rw [shapeFields, outlineFields]
    exact .pure hw .nil
  | cons f rest ih =>
    rw [shapeFields, outlineFields]
    refine (works_markAll hbad (works_shapeOf hbad hΔ hopen sealedAllowed f.type
      (h f (List.mem_cons_self ..))) hw f.marks).bind fun w₁ s o hw₁ _ hs => ?_
    refine (ih (fun g hg => h g (List.mem_cons_of_mem _ hg)) hw₁).bind
      fun w₂ ss os hw₂ hgrows hss => ?_
    refine .pure hw₂ (.cons ⟨?_, hs.agrees, (hs.grow hgrows).defined⟩ hss)
    rw [Shape.foldedField, hs.folded]

end Shaping
end Procedoc
