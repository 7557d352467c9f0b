import Procedoc.Proofs.Rendering.Flat
import Procedoc.Proofs.Shaping.Inert
import Procedoc.Schema.Restoring

/-! # Texts with bounds

Bounds around the type of texts go into the type or beside it; what comes out is a text with bounds
(`Shaping.outlineMarks_bounds`).  Its sketch has keys of its own only
(`Shape.IsBoundText.exists_sketch`), and it depends on the lengths that a model sets for all texts in
it, but on none of the other settings (`Shape.IsBoundText.sketch_eq`).  As the type of a parameter, with
a description, it shows this sketch (`Catalog.fragment_described`). -/
namespace Procedoc
set_option autoImplicit false

/-- The notes that show a bound beside a type. -/
def BoundKind.besideNotes (kind : BoundKind) (isAroundList : Bool) (limit : Json) : Notes :=
  { updates := [(kind.besideKeyword isAroundList, limit)] }

/-- The keys under which the schema of a text with bounds says something. -/
def boundKeys : List String :=
  ["type", "minLength", "maxLength", "pattern", "gt", "ge", "lt", "le", "multiple_of", "minItems",
    "maxItems"]

theorem besideKeyword_mem_boundKeys (kind : BoundKind) (isAroundList : Bool) :
    kind.besideKeyword isAroundList ∈ boundKeys := by
  cases kind <;> cases isAroundList <;> decide

namespace Shape
variable {c : Catalog} {label : Key → String} {config : Config}

/-- Whether a shape is a text with bounds in it and beside it. -/
def IsBoundText : Shape → Prop
  | plain p _ => p = .str
  | guarded inner | chained inner _ => IsBoundText inner
  | noted inner notes => IsBoundText inner ∧
      ∃ (kind : BoundKind) (around : Bool) (limit : Json), notes = kind.besideNotes around limit
  | _ => False

theorem IsBoundText.agrees {Δ : Outlines} : (s : Shape) → s.IsBoundText → s.Agrees Δ
  | plain _ _, _ => trivial
  | guarded inner, h | chained inner _, h => by
    rw [IsBoundText] at h
    rw [Agrees]
    exact IsBoundText.agrees inner h
  | noted inner _, h => by
    rw [IsBoundText] at h
    rw [Agrees]
    exact IsBoundText.agrees inner h.1

theorem IsBoundText.folded : (s : Shape) → s.IsBoundText → s.folded = s
  | plain _ _, _ => rfl
  | guarded inner, h | chained inner _, h => by
    rw [IsBoundText] at h
    rw [Shape.folded, IsBoundText.folded inner h]
  | noted inner _, h => by
    rw [IsBoundText] at h
    rw [Shape.folded, IsBoundText.folded inner h.1]

theorem IsBoundText.target? : (s : Shape) → s.IsBoundText → s.target? = none
  | plain _ _, _ | guarded _, _ | chained _ _, _ => rfl
  | noted inner _, h => by
    rw [IsBoundText] at h
    rw [Shape.target?, IsBoundText.target? inner h.1]

theorem IsBoundText.beside {s : Shape} (h : s.IsBoundText) (b : Bound) :
    (s.beside b).IsBoundText := by
  rw [Shape.beside]
  split
  · rwa [IsBoundText]
  · rw [IsBoundText, IsBoundText]
    exact ⟨h, _, _, _, rfl⟩

theorem IsBoundText.putBound (b : Bound) : (s : Shape) → s.IsBoundText →
    (s.putBound b).IsBoundText
  | plain p bs, h => by
    rw [IsBoundText] at h
    rw [Shape.putBound, IsBoundText]
    exact h
  | noted inner notes, h => by
    rw [IsBoundText] at h
    rw [Shape.putBound, IsBoundText]
    exact ⟨IsBoundText.putBound b inner h.1, h.2⟩
  | guarded inner, h | chained inner _, h => h

theorem IsBoundText.foldedBound {s : Shape} (h : s.IsBoundText) (b : Bound) :
    (s.foldedBound b).IsBoundText := by
  have hbound : (s.bound standIn b).IsBoundText := by
    fun_cases Shape.bound standIn b s with
    | case1 inner => exact h.elim
    | case2 inner notes =>
      rw [IsBoundText] at h
      exact h.1.elim
    | case3 | case4 =>
      rename_i htarget
      rw [IsBoundText.target? s h] at htarget
      cases htarget
    | case5 hn hnn ht hg => exact IsBoundText.putBound b s h
    | case6 hn hnn ht hg => exact h.beside b
  rw [Shape.foldedBound, IsBoundText.folded _ hbound]
  exact hbound

theorem IsBoundText.foldedBounds {s : Shape} (h : s.IsBoundText) (bounds : List Bound) :
    (bounds.foldl (fun s b => s.foldedBound b) s).IsBoundText := by
  induction bounds generalizing s with
  | nil => exact h
  | cons b rest ih => exact ih (h.foldedBound b)

/-! ## Sketches of texts with bounds -/

theorem IsBoundText.wantsTitle : (s : Shape) → s.IsBoundText → s.wantsTitle = true
  | plain _ _, _ | chained _ _, _ => rfl
  | guarded inner, h => by
    rw [IsBoundText] at h
    rw [Shape.wantsTitle, IsBoundText.wantsTitle inner h]
  | noted inner _, h => by
    rw [IsBoundText] at h
    rw [Shape.wantsTitle, IsBoundText.wantsTitle inner h.1]

/-- Where a model sets no lengths for all texts in it, texts with bounds are shown as they are outside
of it. -/
theorem IsBoundText.sketch_eq (hmin : Config.minLength? config = none)
    (hmax : Config.maxLength? config = none) : (s : Shape) → s.IsBoundText →
      s.sketch c label config = s.sketch c label []
  | plain p bounds, h => by
    rw [IsBoundText] at h
    subst h
    have htext : textEntries config bounds = textEntries [] bounds := by
      rw [textEntries, textEntries, hmin, hmax]
      rfl
    rw [sketch, sketch, plainEntries, plainEntries, htext]
  | guarded inner, h | chained inner _, h => by
    rw [IsBoundText] at h
    rw [sketch, sketch, IsBoundText.sketch_eq hmin hmax inner h]
  | noted inner _, h => by
    rw [IsBoundText] at h
    rw [sketch, sketch, IsBoundText.sketch_eq hmin hmax inner h.1]

theorem keys_textEntries (config : Config) (bounds : List Bound) :
    ∀ k ∈ Entries.keys (textEntries config bounds), k ∈ boundKeys := by
  have hshown : ∀ k ∈ Entries.keys (Grip.text.shown bounds), k ∈ boundKeys := by
    intro k hk
    obtain ⟨p, hp, rfl⟩ := List.mem_map.mp hk
    obtain ⟨b, -, hb⟩ := List.mem_filterMap.mp hp
    obtain ⟨keyword, hkeyword, rfl⟩ := Option.map_eq_some_iff.mp hb
    have hall : ((Grip.text.keyword? b.kind).all fun k => k ∈ boundKeys) = true := by
      cases b.kind <;> decide
    rw [hkeyword] at hall
    exact of_decide_eq_true hall
  intro k hk
  obtain ⟨p, hp, rfl⟩ := List.mem_map.mp hk
  rw [textEntries] at hp
  rcases List.mem_append.mp hp with hp | hp
  · rcases List.mem_append.mp hp with hp | hp
    · rw [List.mem_singleton.mp hp]
      decide
    · exact hshown _ (List.mem_map_of_mem hp)
  · obtain ⟨q, hq, heq⟩ := List.mem_filterMap.mp hp
    dsimp only at heq
    split at heq
    · cases heq
    · obtain ⟨l, -, rfl⟩ := Option.map_eq_some_iff.mp heq
      rcases List.mem_pair.mp hq with rfl | rfl <;> dsimp only <;> decide

theorem IsBoundText.exists_sketch : (s : Shape) → s.IsBoundText →
    ∃ e, s.sketch c label config = .ok e ∧ ∀ k ∉ boundKeys, Entries.get? e k = none
  | plain p bounds, h => by
    rw [IsBoundText] at h
    subst h
    refine ⟨textEntries config bounds, by rw [sketch]; rfl, fun k hk => ?_⟩
    exact Entries.get?_eq_none_iff.mpr fun hm => hk (keys_textEntries config bounds k hm)
  | guarded inner, h | chained inner _, h => by
    rw [IsBoundText] at h
    obtain ⟨e, he, hkeys⟩ := IsBoundText.exists_sketch inner h
    exact ⟨e, by rw [sketch, he], hkeys⟩
  | noted inner notes, h => by
    rw [IsBoundText] at h
    obtain ⟨hinner, kind, around, limit, rfl⟩ := h
    obtain ⟨e, he, hkeys⟩ := IsBoundText.exists_sketch inner hinner
    refine ⟨(kind.besideNotes around limit).onto e, by rw [sketch, he]; rfl, fun k hk => ?_⟩
    have hne : k ∉ Entries.keys (kind.besideNotes around limit).updates := by
      intro hm
      rw [List.mem_singleton.mp hm] at hk
      exact hk (besideKeyword_mem_boundKeys kind around)
    change Entries.get? (Entries.override e (kind.besideNotes around limit).updates) k = none
    rw [Entries.get?_override_of_notMem hne, hkeys k hk]

/-- Notes over a text with bounds change nothing under the keys that they do not name. -/
theorem IsBoundText.get?_sketch_note {s : Shape} (h : s.IsBoundText) {notes : Notes}
    (hn : notes.extra = none) {e : Entries Json} (he : s.sketch c label config = .ok e) :
    ∃ body, (s.note notes).sketch c label config = .ok body ∧
      ∀ k ∉ Entries.keys notes.updates, Entries.get? body k = Entries.get? e k := by
  have hover : ∃ body, (noted s notes).sketch c label config = .ok body ∧
      ∀ k ∉ Entries.keys notes.updates, Entries.get? body k = Entries.get? e k := by
    refine ⟨notes.onto e, by rw [sketch, he]; rfl, fun k hk => ?_⟩
    rw [Notes.onto, Notes.added, hn]
    exact Entries.get?_override_of_notMem hk
  have hother : ∃ body, (if notes.isEmpty then s else noted s notes).sketch c label config =
      .ok body ∧ ∀ k ∉ Entries.keys notes.updates, Entries.get? body k = Entries.get? e k := by
    split
    · exact ⟨e, he, fun _ _ => rfl⟩
    · exact hover
  cases s with
  | noted inner before =>
    rw [IsBoundText] at h
    obtain ⟨-, kind, around, limit, rfl⟩ := h
    rw [sketch] at he
    obtain ⟨e₁, he₁, he⟩ := exists_of_bind_eq_ok he
    obtain rfl := Except.ok.inj he
    refine ⟨((kind.besideNotes around limit).merge notes).onto e₁,
      by rw [Shape.note, sketch, he₁]; rfl, fun k hk => ?_⟩
    have hadded : ((kind.besideNotes around limit).merge notes).added = [] := by
      rw [Notes.added, Notes.merge, hn]
      rfl
    have hnodup : (Entries.keys (kind.besideNotes around limit).updates).Nodup :=
      List.nodup_singleton _
    rw [Notes.onto, hadded, Entries.override_nil, Notes.merge,
      Entries.get?_override _ (Entries.nodup_keys_override hnodup _),
      Entries.get?_override_of_notMem hk]
    exact (Entries.get?_override e₁ hnodup k).symm
  | _ => exact hother

end Shape

/-! ## Outlines of texts with bounds -/

namespace Shaping

theorem outlineMarks_bounds (s : Shape) (bounds : List Bound) (others : List Mark) :
    outlineMarks (.ok s) (bounds.map Mark.bound ++ others) = (do
      match ← others.foldlM (outlineMark (.ok s))
        (some (bounds.foldl (fun s b => s.foldedBound b) s)) with
      | some s => return s
      | none => throw Stop.unsupported) := by
  have hall : ∀ t : Shape, (bounds.map Mark.bound).foldlM (outlineMark (.ok s)) (some t) =
      .ok (some (bounds.foldl (fun s b => s.foldedBound b) t)) := by
    induction bounds with
    | nil => exact fun t => rfl
    | cons b rest ih =>
      intro t
      rw [List.map_cons, List.foldlM_cons]
      exact ih (t.foldedBound b)
  have happend : (bounds.map Mark.bound ++ others).foldlM (outlineMark (.ok s)) (some s) =
      others.foldlM (outlineMark (.ok s))
        (some (bounds.foldl (fun s b => s.foldedBound b) s)) := by
    rw [List.foldlM_append, hall]
    rfl
  rw [outlineMarks, ← happend]
  rfl

end Shaping
/-! ## Texts with bounds as types -/

def Shape.boundText (bounds : List Bound) : Shape :=
  bounds.foldl (fun s b => s.foldedBound b) (.plain .str [])

theorem Shape.isBoundText_boundText (bounds : List Bound) : (boundText bounds).IsBoundText := by
  refine IsBoundText.foldedBounds ?_ bounds
  rw [IsBoundText]

namespace Shaping

theorem outlineMarks_boundText (bounds : List Bound) :
    outlineMarks (.ok (.plain .str [])) (bounds.map Mark.bound) = .ok (Shape.boundText bounds) := by
  have h := outlineMarks_bounds (.plain .str []) bounds []
  rw [List.append_nil] at h
  exact h

/-- Around a text, marks that give no default are all that its outline has. -/
theorem outline_withMarks {marks : List Mark} (h : ∀ f ∈ Field.fallbacksOf marks, f.isRequired) :
    outline false (TypeExpr.str.withMarks marks) = outlineMarks (.ok (.plain .str [])) marks := by
  have hfold : ∀ (fallbacks : List Fallback), (∀ f ∈ fallbacks, f.isRequired) → ∀ s : Shape,
      fallbacks.foldl (fun s f => if f.isRequired then s else .defaulted s f) s = s := by
    intro fallbacks
    induction fallbacks with
    | nil => exact fun _ s => rfl
    | cons f rest ih =>
      intro h s
      rw [List.forall_mem_cons] at h
      rw [List.foldl_cons, if_pos h.1]
      exact ih h.2 s
  cases marks with
  | nil => rfl
  | cons m rest =>
    change (do return withDefaults (m :: rest) (← outlineMarks (.ok (.plain .str [])) (m :: rest))) =
      _
    cases ho : outlineMarks (.ok (.plain .str [])) (m :: rest) with
    | error stop => rfl
    | ok s => exact congrArg Except.ok (hfold _ h s)

end Shaping

theorem Field.fallbacksOf_bounds (bounds : List Bound) (others : List Mark) :
    fallbacksOf (bounds.map Mark.bound ++ others) = fallbacksOf others := by
  induction bounds with
  | nil => rfl
  | cons b rest ih => exact ih

theorem Shape.inert_boundText {c : Catalog} {bounds : List Bound} (h : InertBounds bounds) :
    (boundText bounds).IsInert c := by
  refine IsInert.foldedBounds ?_ h
  rw [IsInert]
  exact ⟨List.forall_mem_nil _, .nil⟩

theorem Shape.inert_sketch {c : Catalog} {s : Shape} (h : s.IsInert c) (hrefs : s.folded.refs = [])
    {label : Key → String} {e : Entries Json} (he : s.sketch c label [] = .ok e) : Inert (.obj e) := by
  have hcites := citesOnly_sketch (K := fun _ => False) (fun _ hp => absurd hp List.not_mem_nil) s h
    (fun key hk => by rw [hrefs] at hk; exact absurd hk List.not_mem_nil) e he
  exact hcites.mono fun name ⟨key, hkey, _⟩ => hkey

/-- What a parameter shows of a type, where all that is said around texts are bounds and a
description. -/
theorem Catalog.fragment_described {c : Catalog} {bounds : List Bound} {description : Option String}
    {e e₀ : Entries Json} {label : Key → String} (hbounds : InertBounds bounds)
    (hdescription : ∀ d, description = some d → Inert (.str d))
    (h : c.fragment .input (TypeExpr.str.described (bounds.map Mark.bound) description) = .ok e)
    (h₀ : (Shape.boundText bounds).sketch c label [] = .ok e₀) :
    ∃ body, Inert (.obj body) ∧ e = (Json.obj body).sorted.entries ∧
      ∀ k, (k = "description" → description = none) → Entries.get? body k = Entries.get? e₀ k := by
  have hflat : ∀ others, (∀ f ∈ Field.fallbacksOf others, f.isRequired) →
      c.fragment .input (TypeExpr.str.withMarks (bounds.map Mark.bound ++ others)) = .ok e →
      ∃ o body, Shaping.outlineMarks (.ok (.plain .str [])) (bounds.map Mark.bound ++ others) = .ok o ∧
        o.sketch c label [] = .ok body ∧ (o.IsInert c → Inert (.obj body)) ∧
          e = (Json.obj body).sorted.entries := by
    intro others hothers hfragment
    have hwithin : (TypeExpr.str.withMarks (bounds.map Mark.bound ++ others)).Within
        (fun _ => False) fun _ => False := by
      cases bounds.map Mark.bound ++ others <;> trivial
    obtain ⟨o, body, ho, hagrees, hbody, he⟩ := fragment_flat hwithin hfragment label
    rw [Shaping.outline_withMarks (by rwa [Field.fallbacksOf_bounds])] at ho
    have hrefs : o.folded.refs = [] := by
      rw [Shape.folded_eq_self o hagrees, Shape.refs_eq_nil hagrees]
    exact ⟨o, body, ho, hbody, fun hinert => Shape.inert_sketch hinert hrefs hbody, he⟩
  have hplain : c.fragment .input (TypeExpr.str.withMarks (bounds.map Mark.bound)) = .ok e →
      Inert (.obj e₀) ∧ e = (Json.obj e₀).sorted.entries := by
    intro hfragment
    obtain ⟨o, body, ho, hbody, hinert, he⟩ := hflat [] nofun (by rwa [List.append_nil])
    rw [List.append_nil, Shaping.outlineMarks_boundText] at ho
    obtain rfl := Except.ok.inj ho
    rw [Except.ok.inj (h₀.symm.trans hbody)]
    exact ⟨hinert (Shape.inert_boundText hbounds), he⟩
  cases description with
  | none => exact ⟨e₀, (hplain h).1, (hplain h).2, fun _ _ => rfl⟩
  | some d =>
    rw [TypeExpr.described] at h
    split at h
    · exact ⟨e₀, (hplain h).1, (hplain h).2, fun _ _ => rfl⟩
    · obtain ⟨o, body, ho, hbody, hinert, he⟩ :=
        hflat _ (by simp [Field.fallbacksOf, Fallback.isRequired]) h
      rw [Shaping.outlineMarks_bounds] at ho
      obtain rfl : (Shape.boundText bounds).note { updates := [("description", .str d)] } = o :=
        Except.ok.inj ho
      have hextra : ({ updates := [("description", .str d)] } : Notes).extra = none := rfl
      have hnotes : InertNotes { updates := [("description", .str d)] } := by
        refine ⟨fun p hp => ?_, nofun⟩
        rw [List.mem_singleton.mp hp]
        exact ⟨(by decide : "description" ≠ "$ref"), hdescription d rfl⟩
      obtain ⟨body', hbody', hkeys⟩ :=
        (Shape.isBoundText_boundText bounds).get?_sketch_note hextra h₀
      obtain rfl := Except.ok.inj (hbody.symm.trans hbody')
      refine ⟨body, hinert ((Shape.inert_boundText hbounds).note hnotes), he,
        fun k hk => hkeys k fun hm => ?_⟩
      exact nomatch hk (List.mem_singleton.mp hm)

end Procedoc
