import Procedoc.Proofs.Rendering.Omitting

/-! # Records by themselves

A record whose fields refer to nothing is the only definition on its sheet
(`Layout.IsLone.schema_eq_ok`).  Whatever is written by hand in it, the schema that is finished is
that definition, or a reference to it that brings it along (`Sheet.IsLone.finish_eq_ok`). -/
namespace Procedoc
set_option autoImplicit false
open ExceptT (result_bind result_pure result_throw result_get result_modify result_tryCatch)

/-! ## Writing that leaves the sheet alone -/

namespace Writing
variable {α β : Type}

/-- Whether a computation does not change the sheet; it may read it. -/
def Leaves (x : Writing α) : Prop := ∀ s : Sheet, (x.result s).2 = s

theorem Still.leaves {x : Writing α} (h : Still x) : Leaves x := fun s => by rw [h s]

theorem Leaves.bind {x : Writing α} {f : α → Writing β} (hx : Leaves x) (hf : ∀ a, Leaves (f a)) :
    Leaves (x >>= f) := by
  intro s
  have hs := hx s
  rw [result_bind]
  rcases hr : x.result s with ⟨a | a, s'⟩
  · rw [hr] at hs
    exact hs
  · rw [hr] at hs
    obtain rfl : s' = s := hs
    exact hf a s'

theorem Leaves.tryCatch {x : Writing α} {f : Obstacle → Writing α} (hx : Leaves x)
    (hf : ∀ o, Leaves (f o)) : Leaves (tryCatch x f) := by
  intro s
  have hs := hx s
  rw [result_tryCatch]
  rcases hr : x.result s with ⟨o | a, s'⟩
  · rw [hr] at hs
    obtain rfl : s' = s := hs
    exact hf o s'
  · rw [hr] at hs
    exact hs

theorem leaves_pure (a : α) : Leaves (pure a : Writing α) := fun _ => rfl

theorem leaves_get : Leaves (get : Writing Sheet) := fun _ => rfl

theorem leaves_attempt {x : Writing α} (hx : Leaves x) : Leaves (attempt x) := by
  refine (hx.bind fun a => leaves_pure (some a)).tryCatch fun o => ?_
  split
  · exact leaves_pure _
  · exact (still_throw _).leaves

theorem leaves_withoutEchoes (e : Entries Json) : Leaves (withoutEchoes e) := by
  rw [withoutEchoes]
  split
  · exact leaves_pure _
  · rename_i ref _
    refine leaves_get.bind fun s => Leaves.bind ?_ fun target => ?_
    · cases s.target? ref with
      | ok target => exact leaves_pure target
      | error o => exact (still_throw o).leaves
    · cases target with
      | none => exact leaves_pure _
      | some target => exact leaves_pure _

end Writing

open Writing (Leaves leaves_pure leaves_attempt leaves_withoutEchoes)

/-- The outlines of nothing: a shape agrees with them if there is neither a reference nor a
definition in it. -/
def Outlines.nothing : Outlines := fun _ => none

namespace Shape
variable {c : Catalog} {asked : Side}

theorem not_agrees_nothing {s : Shape} {key : Key} (h : s.key? = some key) :
    ¬ s.Agrees .nothing := fun hs => Bool.false_ne_true (agrees_of_key? h hs)

mutual
theorem folded_eq_self : (s : Shape) → s.Agrees .nothing → s.folded = s
  | container _ inner _, h | nullable inner, h | guarded inner, h | chained inner _, h
  | defaulted inner _, h | noted inner _, h => by
    rw [Agrees] at h
    rw [folded, folded_eq_self inner h]
  | tuple items _, h | union items, h => by
    rw [Agrees] at h
    rw [folded, foldedList_eq_self items h]
  | dict a b _, h | replaced a b, h => by
    rw [Agrees] at h
    rw [folded, folded_eq_self a h.1, folded_eq_self b h.2]
  | record _ _, h | enumeration _ _, h => absurd h (not_agrees_nothing rfl)
  | plain _ _, _ | literal _, _ | concealed, _ | shared _, _ | reference _, _ => rfl

theorem foldedList_eq_self : (shapes : List Shape) → AgreeAll .nothing shapes →
    foldedList shapes = shapes
  | [], _ => rfl
  | s :: rest, h => by rw [foldedList, folded_eq_self s h.1, foldedList_eq_self rest h.2]
end

mutual
theorem leaves_write (config : Config) : (s : Shape) → s.Agrees .nothing →
    Leaves (s.write c asked config)
  | plain p bounds, _ => by
    rw [write]
    exact (still_plainEntries config p bounds).leaves
  | literal values, _ => by
    rw [write]
    exact (Writing.still_mapM (still_writtenData c []) values).leaves.bind fun js => leaves_pure _
  | container _ inner _, h => by
    rw [Agrees] at h
    rw [write]
    exact (leaves_write config inner h).bind fun e => leaves_pure _
  | tuple items _, h => by
    rw [Agrees] at h
    rw [write]
    exact (leaves_writeAll config items h).bind fun es => leaves_pure _
  | dict k v _, h => by
    rw [Agrees] at h
    rw [write]
    exact (leaves_write config k h.1).bind fun e => (leaves_write config v h.2).bind fun e' =>
      leaves_pure _
  | union members, h => by
    rw [Agrees] at h
    rw [write]
    exact (leaves_writeSome config members h).bind fun es => leaves_pure _
  | nullable inner, h | noted inner _, h => by
    rw [Agrees] at h
    rw [write]
    exact (leaves_write config inner h).bind fun e => leaves_pure _
  | guarded inner, h => by
    rw [Agrees] at h
    rw [write]
    exact leaves_write config inner h
  | replaced inner bare, h => by
    rw [Agrees] at h
    rw [write]
    split
    · exact leaves_pure _
    · exact leaves_write config bare h.2
  | concealed, _ => by
    rw [write]
    split
    · exact leaves_pure _
    · exact (Writing.still_throw _).leaves
  | chained inner pattern, h => by
    rw [Agrees] at h
    rw [write]
    split
    · exact leaves_write config inner h
    · exact leaves_pure _
  | defaulted inner fallback, h => by
    rw [Agrees] at h
    rw [write]
    exact (leaves_write config inner h).bind fun e => (still_withDefault c config fallback e).leaves
  | reference _, h => absurd h (by rw [Agrees]; exact Bool.false_ne_true)
  | shared _, h => absurd h (by rw [Agrees]; exact id)
  | record _ _, h | enumeration _ _, h => absurd h (not_agrees_nothing rfl)

theorem leaves_writeAll (config : Config) : (shapes : List Shape) → AgreeAll .nothing shapes →
    Leaves (writeAll c asked config shapes)
  | [], _ => by
    rw [writeAll]
    exact leaves_pure _
  | s :: rest, h => by
    rw [writeAll]
    exact (leaves_write config s h.1).bind fun e => (leaves_writeAll config rest h.2).bind fun es =>
      leaves_pure _

theorem leaves_writeSome (config : Config) : (shapes : List Shape) → AgreeAll .nothing shapes →
    Leaves (writeSome c asked config shapes)
  | [], _ => by
    rw [writeSome]
    exact leaves_pure _
  | s :: rest, h => by
    rw [writeSome]
    exact (leaves_attempt (leaves_write config s h.1)).bind fun e =>
      (leaves_writeSome config rest h.2).bind fun es => leaves_pure _
end

theorem leaves_writeFields {config : Config} {fields : List (Field Shape)}
    (h : ∀ f ∈ fields, f.type.Agrees .nothing) : Leaves (writeFields c asked config fields) := by
  induction fields with
  | nil =>
    rw [writeFields]
    exact leaves_pure _
  | cons f rest ih =>
    rw [List.forall_mem_cons] at h
    rw [writeFields]
    refine (leaves_write config f.type h.1).bind fun shown => Leaves.bind ?_ fun schema =>
      (ih h.2).bind fun ps => leaves_pure _
    rw [propertyEntries]
    exact (still_withDefault c config _ shown).leaves.bind fun e => leaves_withoutEchoes _

/-- The name of a property and whether it has to be present depend on the facts of its field only. -/
theorem heads_writeFields {config : Config} {fields : List (Field Shape)} {ps : List Property}
    {s s' : Sheet} (h : (writeFields c asked config fields).result s = (.ok ps, s')) :
    (ps.map fun p => (p.name, p.isRequired)) = fields.map fun f =>
      (propertyName (sideIn config asked) config f, isRequired (sideIn config asked) config f.facts) := by
  induction fields generalizing ps s s' with
  | nil =>
    rw [writeFields] at h
    cases h
    rfl
  | cons f rest ih =>
    rw [writeFields, result_bind] at h
    split at h
    · rename_i shown s₁ _
      rw [result_bind] at h
      split at h
      · rename_i schema s₂ _
        rw [result_bind] at h
        split at h
        · rename_i qs s₃ hrest
          cases h
          rw [List.map_cons, List.map_cons, ih hrest]
          rfl
        · cases h
      · cases h
    · cases h

/-- Whether fields make properties, each by itself. -/
def MakeProperties (c : Catalog) (asked : Side) (config : Config) (fields : List (Field Shape))
    (ps : List Property) : Prop :=
  List.Forall₂ (fun f p => (writeFields c asked config [f]).result {} = (.ok [p], {})) fields ps

theorem makeProperties_writeFields {config : Config} {fields : List (Field Shape)}
    (hfields : ∀ f ∈ fields, f.type.Agrees .nothing) {ps : List Property}
    (h : (writeFields c asked config fields).result {} = (.ok ps, {})) :
    MakeProperties c asked config fields ps := by
  induction fields generalizing ps with
  | nil =>
    rw [writeFields] at h
    cases h
    exact .nil
  | cons f rest ih =>
    have hcons : writeFields c asked config (f :: rest) = (do
        let own ← writeFields c asked config [f]
        let others ← writeFields c asked config rest
        return own ++ others) := by
      simp [writeFields]
    rw [List.forall_mem_cons] at hfields
    have hleaves : ((writeFields c asked config [f]).result {}).2 = {} :=
      leaves_writeFields (List.forall_mem_singleton.mpr hfields.1) {}
    rw [hcons, result_bind] at h
    rcases hown : (writeFields c asked config [f]).result {} with ⟨o | own, s⟩
    · rw [hown] at h
      cases h
    rw [hown] at h hleaves
    obtain rfl : s = {} := hleaves
    dsimp only at h
    rw [result_bind] at h
    rcases hothers : (writeFields c asked config rest).result {} with ⟨o | others, s⟩
    · rw [hothers] at h
      cases h
    rw [hothers] at h
    obtain ⟨rfl, rfl⟩ : own ++ others = ps ∧ s = {} := by
      cases h
      exact ⟨rfl, rfl⟩
    obtain ⟨p, rfl⟩ : ∃ p, own = [p] := by
      refine List.length_eq_one_iff.mp ?_
      simpa using congrArg List.length (heads_writeFields hown)
    exact .cons hown (ih hfields.2 hothers)

end Shape

/-! ## Finishing a schema -/

theorem mem_of_leads {s : Sheet} {steps : Nat} {pending found found' : List String}
    (h : leads s steps pending found = .ok found') : ∀ name ∈ found, name ∈ found' := by
  induction steps generalizing pending found with
  | zero =>
    rw [leads] at h
    cases h
    exact fun name hname => hname
  | succ steps ih =>
    cases pending with
    | nil =>
      rw [leads] at h
      · cases h
        exact fun name hname => hname
      · exact fun h => by cases h
    | cons ref rest =>
      rw [leads] at h
      split at h
      · split at h
        · exact ih h
        · exact fun name hname => ih h name (List.mem_append_left _ hname)
      · split at h
        · exact ih h
        · cases h

theorem Sheet.exists_of_inUse_reference {s : Sheet} {label : String}
    (hd : (Entries.get? s.definitions label).isSome) {inUse : Entries Json}
    (h : s.inUse (referenceTo label) = .ok inUse) :
    ∃ found : List String, label ∈ found ∧
      inUse = s.definitions.filter fun d => found.contains d.1 := by
  obtain ⟨found, hfound, h⟩ := exists_of_bind_eq_ok h
  obtain ⟨k, hk⟩ := s.exists_stepsFor_reference label
  have hrefs : references (.obj (referenceTo label)) = [definitionRef label] := by
    simp [references, referencesOfEntries, referenceTo]
  obtain ⟨d, hd⟩ := Option.isSome_iff_exists.mp hd
  rw [hk, hrefs, leads, definitionName?_definitionRef, Option.bind_some, hd] at hfound
  exact ⟨found,
    mem_of_leads hfound label (List.mem_append_right _ (List.mem_singleton.mpr rfl)),
    (Except.ok.inj h).symm⟩

theorem Sheet.exists_of_finish {s : Sheet} {schema whole : Entries Json}
    (h : s.finish schema = .ok whole) :
    ∃ t body inUse, tally s (s.stepsFor schema) [.obj schema] [] = .ok t ∧
      unfold s (s.definitions.length + 1) t schema = .ok body ∧ s.inUse body = .ok inUse ∧
      hasUnhashable (.obj body) = false ∧ (∀ d ∈ inUse, hasUnhashable d.2 = false) ∧
      whole = finished s.names inUse body := by
  rw [Sheet.finish] at h
  obtain ⟨t, ht, h⟩ := exists_of_bind_eq_ok h
  obtain ⟨body, hbody, h⟩ := exists_of_bind_eq_ok h
  obtain ⟨inUse, hinUse, h⟩ := exists_of_bind_eq_ok h
  by_cases hhash : (hasUnhashable (.obj body) || inUse.any fun d => hasUnhashable d.2) = true
  · simp only [hhash, if_true] at h
    cases h
  · simp only [hhash] at h
    rw [Bool.not_eq_true, Bool.or_eq_false_iff, List.any_eq_false] at hhash
    exact ⟨t, body, inUse, ht, hbody, hinUse, hhash.1,
      fun d hd => Bool.eq_false_iff.mpr (hhash.2 d hd), (Except.ok.inj h).symm⟩

/-! ## Sheets with one definition -/

theorem not_isWebAddress_definitionRef (name : String) :
    isWebAddress (definitionRef name) = false := by
  rw [isWebAddress, Bool.or_eq_false_iff, String.startsWith_string_eq_false_iff,
    String.startsWith_string_eq_false_iff]
  constructor <;> simp [definitionRef, definitionMark]

/-- Whether a sheet has one definition, which is not a reference to itself. -/
structure Sheet.IsLone (s : Sheet) (label : String) (e : Entries Json) : Prop where
  definitions : s.definitions = [(label, .obj e)]
  names : Entries.keys s.names = [label]
  broken : s.broken = []
  proper : ¬ Refers e label

namespace Sheet.IsLone
variable {s : Sheet} {label : String} {e : Entries Json}

theorem has_names (hs : s.IsLone label e) (name : String) :
    Entries.has s.names name = decide (name = label) := by
  rw [Entries.has, ← Option.not_isNone, Bool.eq_iff_iff]
  simp only [Bool.not_eq_true', decide_eq_true_eq]
  rw [← Bool.not_eq_true, Option.isNone_iff_eq_none, Entries.get?_eq_none_iff, hs.names,
    List.mem_singleton, not_not]

theorem target?_self (hs : s.IsLone label e) :
    s.target? (.str (definitionRef label)) = .ok (some (.obj e)) := by
  have hhas : Entries.has s.names label = true := by rw [hs.has_names, decide_eq_true rfl]
  simp [target?, Option.filter, hhas, hs.broken, hs.definitions, Entries.get?]

/-- What no reference to the definition is leads nowhere, and is an address on the web. -/
theorem of_target? (hs : s.IsLone label e) {ref : String} (hne : ref ≠ definitionRef label)
    {t : Option Json} (h : s.target? (.str ref) = .ok t) :
    t = none ∧ definitionName? ref = none := by
  have hfilter : (definitionName? ref).filter (Entries.has s.names) = none := by
    rw [Option.filter_eq_none_iff]
    intro name hn hhas
    rw [hs.has_names, decide_eq_true_eq] at hhas
    exact hne (hhas ▸ definitionName?_eq_some_iff.mp hn)
  rw [target?, hfilter] at h
  dsimp only at h
  split at h
  · rename_i hweb
    refine ⟨(Except.ok.inj h).symm, ?_⟩
    cases hn : definitionName? ref with
    | none => rfl
    | some name =>
      rw [definitionName?_eq_some_iff.mp hn, not_isWebAddress_definitionRef] at hweb
      exact Bool.noConfusion hweb
  · cases h

/-- Where counting the references ends well, the definition is no reference either. -/
theorem not_refers_of_tally (hs : s.IsLone label e) {t : Tally}
    (h : tally s (s.stepsFor (referenceTo label)) [.obj (referenceTo label)] [] = .ok t)
    (name : String) : ¬ Refers e name := by
  obtain ⟨k, hk⟩ := s.exists_stepsFor_reference label
  have hget : Entries.get? (referenceTo label) "$ref" = some (.str (definitionRef label)) := rfl
  have hzero : Tally.of [] (definitionRef label) = 0 := rfl
  rw [hk, tally, hget] at h
  simp only [hzero, Nat.lt_irrefl, if_false, hs.target?_self, bind, Except.bind] at h
  intro hr
  by_cases hname : name = label
  · exact hs.proper (hname ▸ hr)
  · -- the second step meets a reference that leads nowhere
    have hne : definitionRef name ≠ definitionRef label := mt definitionRef_inj.mp hname
    have hof : Tally.of (Entries.put [] (definitionRef label) (0 + 1)) (definitionRef name) = 0 := by
      rw [Tally.of_put, if_neg (Ne.symm hne)]
      rfl
    rw [List.cons_append, tally, hr] at h
    simp only [hof, Nat.lt_irrefl, if_false] at h
    cases ht : s.target? (.str (definitionRef name)) with
    | error o =>
      rw [ht] at h
      cases h
    | ok target =>
      have hnone := (hs.of_target? hne ht).2
      rw [definitionName?_definitionRef] at hnone
      cases hnone

/-- What is unfolded is the reference or the definition. -/
theorem unfold_cases (hs : s.IsLone label e) {t : Tally} {body : Entries Json}
    (h : unfold s (s.definitions.length + 1) t (referenceTo label) = .ok body) :
    body = referenceTo label ∨ body = e := by
  have hget : Entries.get? (referenceTo label) "$ref" = some (.str (definitionRef label)) := rfl
  have hlength : s.definitions.length + 1 = 2 := by rw [hs.definitions]; rfl
  rw [hlength, unfold, hget] at h
  simp only [hs.target?_self, bind, Except.bind] at h
  split at h
  · rw [Json.entries_obj, unfold] at h
    split at h
    · exact .inr (Except.ok.inj h).symm
    · exact .inr (Except.ok.inj h).symm
    · rename_i href
      obtain ⟨found, ht, h⟩ := exists_of_bind_eq_ok h
      split at h
      · rename_i ref target _ _
        have hne : ref ≠ definitionRef label := by
          rintro rfl
          exact hs.proper href
        cases (hs.of_target? hne ht).1
      · exact .inr (Except.ok.inj h).symm
  · exact .inl (Except.ok.inj h).symm

theorem inUse_cases (hs : s.IsLone label e) {body inUse : Entries Json}
    (h : s.inUse body = .ok inUse) :
    (inUse = [] ∨ inUse = s.definitions) ∧ (body = referenceTo label → inUse = s.definitions) := by
  constructor
  · obtain ⟨found, -, h⟩ := exists_of_bind_eq_ok h
    obtain rfl := Except.ok.inj h
    rw [hs.definitions, List.filter_singleton]
    cases found.contains label with
    | true => exact .inr rfl
    | false => exact .inl rfl
  · rintro rfl
    obtain ⟨found, hmem, rfl⟩ := Sheet.exists_of_inUse_reference (by
      rw [hs.definitions, Entries.get?, if_pos rfl]
      rfl) h
    rw [hs.definitions, List.filter_singleton, List.contains_iff_mem.mpr hmem]
    rfl

theorem finish_eq_ok (hs : s.IsLone label e) {whole : Entries Json}
    (h : s.finish (referenceTo label) = .ok whole) :
    (∀ name, ¬ Refers e name) ∧ hasUnhashable (.obj e) = false ∧
      (whole = finished s.names s.definitions (referenceTo label) ∨
        ∃ inUse, (inUse = [] ∨ inUse = s.definitions) ∧ whole = finished s.names inUse e) := by
  obtain ⟨t, body, inUse, ht, hbody, hinUse, hhash, hhashes, rfl⟩ := Sheet.exists_of_finish h
  obtain ⟨hsome, href⟩ := hs.inUse_cases hinUse
  refine ⟨hs.not_refers_of_tally ht, ?_⟩
  rcases hs.unfold_cases hbody with rfl | rfl
  · obtain rfl := href rfl
    exact ⟨hhashes (label, .obj e) (by rw [hs.definitions]; exact List.mem_singleton.mpr rfl),
      .inl rfl⟩
  · exact ⟨hhash, .inr ⟨inUse, hsome, rfl⟩⟩

end Sheet.IsLone

/-! ## Layouts of one record -/

/-- Whether a layout is that of a record whose fields refer to nothing. -/
structure Layout.IsLone (l : Layout) (key : Key) (r : Record Shape) : Prop where
  top : l.top = .record key r
  definitions : l.definitions = []
  fields : ∀ f ∈ r.fields, f.type.Agrees .nothing

theorem Layout.Good.isLone {Δ : Outlines} {key : Key} {o : Record Shape} {l : Layout}
    (h : l.Good Δ key o) (hΔ : ∀ owner, Δ owner = none) : l.IsLone key o := by
  obtain rfl : Δ = .nothing := funext hΔ
  obtain ⟨fields, htop, hmap, hagree⟩ := h.top
  have hfields := Shape.agreeFields_iff.mp hagree
  have hsame : fields = o.fields := by
    rw [← hmap]
    refine (List.map_id' fields).symm.trans (List.map_congr_left fun f hf => ?_)
    rw [Shape.foldedField, Shape.folded_eq_self f.type (hfields f hf)]
  refine ⟨by rw [htop, hsame], List.eq_nil_iff_forall_not_mem.mpr fun p hp => ?_, ?_⟩
  · exact Shape.not_agrees_nothing (h.defines p hp).1 (h.defines p hp).2
  · rwa [← hsame]

theorem exists_withLabel (key : Key) (side : Side) : ∃ label s,
    Sheet.withLabel {} key side = (label, s) ∧ s.definitions = [] ∧
      Entries.keys s.names = [label] ∧ s.broken = [] := ⟨_, _, rfl, rfl, rfl, rfl⟩

theorem result_entity_of_error {key : Key} {side : Side} {body : Writing (Entries Json)}
    {o : Obstacle} {s : Sheet} (h : body.result {} = (.error o, s)) :
    (Writing.entity key side body).result {} = (.error o, s) := by
  rw [Writing.result_entity rfl, h]

/-- On an empty sheet a definition is written, unless it would only refer to itself. -/
theorem result_entity_of_ok {key : Key} {side : Side} {body : Writing (Entries Json)}
    {e : Entries Json} (h : body.result {} = (.ok e, {})) {label : String} {s : Sheet}
    (hlabel : Sheet.withLabel {} key side = (label, s)) :
    (Writing.entity key side body).result {} = (.ok (referenceTo label),
      if Entries.get? e "$ref" != some (.str (definitionRef label)) then s.define label e else s) := by
  rw [Writing.result_entity rfl, h]
  dsimp only
  rw [hlabel]

theorem Sheet.finish_of_undefined {s : Sheet} {label : String} (hd : s.definitions = [])
    (hn : Entries.keys s.names = [label]) (hb : s.broken = []) :
    s.finish (referenceTo label) = .error .looseReference := by
  have hhas : Entries.has s.names label = true := by
    rw [Entries.has, Option.isSome_iff_ne_none, Ne, Entries.get?_eq_none_iff, hn]
    exact fun h => h (List.mem_singleton.mpr rfl)
  have htarget : s.target? (.str (definitionRef label)) = .ok none := by
    simp [target?, Option.filter, hhas, hb, hd]
  have hget : Entries.get? (referenceTo label) "$ref" = some (.str (definitionRef label)) := rfl
  have hsteps : s.stepsFor (referenceTo label) = 2 := by
    rw [Sheet.stepsFor, hd]
    rfl
  have hzero : Tally.of [] (definitionRef label) = 0 := rfl
  rw [Sheet.finish, hsteps, tally, hget]
  simp only [hzero, Nat.lt_irrefl, if_false, htarget, not_isWebAddress_definitionRef]
  rfl

theorem Layout.IsLone.schema_eq_ok {c : Catalog} {key : Key} {r : Record Shape} {l : Layout}
    (hl : l.IsLone key r) {e : Entries Json} (h : l.schema c .input = .ok e) :
    ∃ ps s label, (ps.map fun p => (p.name, p.isRequired)) = (r.fields.map fun f =>
        (propertyName (Shape.sideIn r.config .input) r.config f,
          isRequired (Shape.sideIn r.config .input) r.config f.facts)) ∧
      Shape.MakeProperties c .input r.config r.fields ps ∧
      Sheet.IsLone s label (recordEntries r.name r.doc r.config ps) ∧
      s.finish (referenceTo label) = .ok e := by
  obtain ⟨body, hbody⟩ : ∃ body : Writing (Entries Json), body = (do
      let properties ← Shape.writeFields c .input r.config r.fields
      if Config.isWritable r.config then return recordEntries r.name r.doc r.config properties
      else throw .unfitSetting) := ⟨_, rfl⟩
  have hwrite : l.write c .input = Writing.entity key .input body := by
    rw [Layout.write, hl.definitions, writeDefinitions, hl.top, Shape.write, hbody]
    rfl
  have hrun : (Writing.entity key .input body).run {} =
      (Writing.entity key .input body).result {} := rfl
  rw [Layout.schema, hwrite, hrun] at h
  -- the fields leave the sheet empty
  have hleaves : ((Shape.writeFields c .input r.config r.fields).result {}).2 = {} :=
    Shape.leaves_writeFields hl.fields {}
  rcases hfields : (Shape.writeFields c .input r.config r.fields).result {} with ⟨o | ps, s'⟩
  · rw [result_entity_of_error (by rw [hbody, result_bind, hfields])] at h
    cases h
  rw [hfields] at hleaves
  obtain rfl : s' = {} := hleaves
  by_cases hw : Config.isWritable r.config = true
  · obtain ⟨label, s, hlabel, hdefs, hnames, hbroken⟩ := exists_withLabel key .input
    rw [result_entity_of_ok (e := recordEntries r.name r.doc r.config ps) (by
      rw [hbody, result_bind, hfields]
      simp only [hw, if_true, result_pure]) hlabel] at h
    change (if _ then s.define label _ else s).finish (referenceTo label) = .ok e at h
    by_cases href : Refers (recordEntries r.name r.doc r.config ps) label
    · rw [Refers] at href
      rw [href, if_neg (by simp), Sheet.finish_of_undefined hdefs hnames hbroken] at h
      cases h
    · rw [if_pos (by rw [bne_iff_ne]; exact href)] at h
      refine ⟨ps, s.define label (recordEntries r.name r.doc r.config ps), label,
        Shape.heads_writeFields hfields, Shape.makeProperties_writeFields hl.fields hfields,
        ⟨?_, hnames, ?_, href⟩, h⟩
      · rw [Sheet.define, hdefs]
        rfl
      · rw [Sheet.define, hbroken]
        rfl
  · rw [result_entity_of_error (o := .unfitSetting) (s := {}) (by
      rw [hbody, result_bind, hfields]
      simp only [hw, Bool.false_eq_true, if_false, result_throw])] at h
    cases h

end Procedoc
