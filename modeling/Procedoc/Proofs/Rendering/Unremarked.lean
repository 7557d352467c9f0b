import Procedoc.Proofs.Document.Gathering
import Procedoc.Proofs.Operation.Rendered

/-! # What remarks do not change

Remarks are shown at shared references and nowhere else.  So two catalogs that are the same but for
remarks write the same data (`Catalog.Same.dataIn_eq`), write a shape without shared references in
the same way (`Shape.write_same`), and have the same fragment for a type that names nothing
(`Catalog.Same.fragment_eq`).  A schema whose base is a text without a type of its own is rendered
the same in both (`Schema.IsMereText.render_eq`).
-/

namespace Procedoc
set_option autoImplicit false

variable {c c' : Catalog}

/-! ## Data -/

namespace Catalog.Same

theorem model?_eq (h : Same c c') (name : String) : c'.model? name = c.model? name := by
  rw [model?, model?, h.models]

theorem memberData_eq (h : Same c c') (enumeration member : String) :
    c'.memberData enumeration member = c.memberData enumeration member := by
  rw [memberData, memberData, enumeration?, enumeration?, h.enumerations]

theorem configOf_eq (h : Same c c') (name : String) : c'.configOf name = c.configOf name := by
  rw [configOf, configOf, h.model?_eq]

variable {record : String → Entries Json → Except Fault Json}

mutual
theorem dataWith_eq (h : Same c c') (form : DataForm) : (v : Value) →
    c'.dataWith record form v = c.dataWith record form v
  | .plain _ => by rw [dataWith, dataWith]
  | .many _ items => by rw [dataWith, dataWith, dataOfList_eq h form items]
  | .dict entries => by rw [dataWith, dataWith, dataOfEntries_eq h form entries]
  | .member _ _ => by rw [dataWith, dataWith, h.memberData_eq]
  | .octets _ => by rw [dataWith, dataWith]
  | .date _ => by rw [dataWith, dataWith]
  | .record model given => by
    rw [dataWith, dataWith, h.configOf_eq, dataOfEntries_eq h _ given]
  | .sealed => by rw [dataWith, dataWith]

theorem dataOfList_eq (h : Same c c') (form : DataForm) : (items : List Value) →
    c'.dataOfList record form items = c.dataOfList record form items
  | [] => by rw [dataOfList, dataOfList]
  | v :: rest => by
    rw [dataOfList, dataOfList, dataWith_eq h form v, dataOfList_eq h form rest]

theorem dataOfEntries_eq (h : Same c c') (form : DataForm) : (entries : List (String × Value)) →
    c'.dataOfEntries record form entries = c.dataOfEntries record form entries
  | [] => by rw [dataOfEntries, dataOfEntries]
  | (k, v) :: rest => by
    rw [dataOfEntries, dataOfEntries, dataWith_eq h form v, dataOfEntries_eq h form rest]
end

theorem recordDataWithin_eq (h : Same c c') (depth : Nat) :
    c'.recordDataWithin depth = c.recordDataWithin depth := by
  funext model given
  induction depth generalizing model given with
  | zero => rw [recordDataWithin, recordDataWithin]
  | succ depth ih =>
    have hdefaults : c'.recordDataWithin depth = c.recordDataWithin depth := by
      funext model given
      exact ih model given
    have hdata (form : DataForm) : c'.dataWith (c'.recordDataWithin depth) form =
        c.dataWith (c.recordDataWithin depth) form := by
      funext v
      rw [hdefaults, h.dataWith_eq]
    rw [recordDataWithin, recordDataWithin, h.model?_eq]
    simp only [hdata]

theorem dataIn_eq (h : Same c c') (form : DataForm) (v : Value) :
    c'.dataIn form v = c.dataIn form v := by
  rw [dataIn, dataIn, h.recordDataWithin_eq, h.models, h.dataWith_eq]

theorem data_eq (h : Same c c') (v : Value) : c'.data v = c.data v := h.dataIn_eq {} v

end Catalog.Same

theorem writtenData_same (h : c.Same c') (config : Config) (v : Value) :
    writtenData c' config v = writtenData c config v := by
  rw [writtenData, writtenData, h.dataIn_eq]

theorem withDefault_same (h : c.Same c') (config : Config) (f : Fallback) (e : Entries Json) :
    withDefault c' config f e = withDefault c config f e := by
  rw [withDefault, withDefault]
  simp only [writtenData_same h]

/-! ## Shapes -/

namespace Shape
variable {Δ : Outlines} {asked : Side} {config : Config}

mutual
theorem write_same (h : c.Same c') (config : Config) : (s : Shape) → s.Agrees Δ →
    s.write c' asked config = s.write c asked config
  | plain _ _, _ | concealed, _ | reference _, _ | enumeration _ _, _ => by rw [write, write]
  | literal values, _ => by
    rw [write, write, funext (writtenData_same h [])]
  | container _ inner _, hs | nullable inner, hs | guarded inner, hs | chained inner _, hs
  | noted inner _, hs => by
    rw [Agrees] at hs
    rw [write, write, write_same h config inner hs]
  | defaulted inner _, hs => by
    rw [Agrees] at hs
    rw [write, write, write_same h config inner hs]
    simp only [withDefault_same h]
  | tuple items _, hs => by
    rw [Agrees] at hs
    rw [write, write, writeAll_same h config items hs]
  | union members, hs => by
    rw [Agrees] at hs
    rw [write, write, writeSome_same h config members hs]
  | dict k v _, hs => by
    rw [Agrees] at hs
    rw [write, write, write_same h config k hs.1, write_same h config v hs.2]
  | replaced _ bare, hs => by
    rw [Agrees] at hs
    rw [write, write, write_same h config bare hs.2]
  | shared _, hs => by
    rw [Agrees] at hs
    exact hs.elim
  | record _ ⟨_, _, own, fields⟩, hs => by
    rw [Agrees] at hs
    rw [write, write, writeFields_same h own fields hs.2]

theorem writeAll_same (h : c.Same c') (config : Config) : (shapes : List Shape) →
    AgreeAll Δ shapes → writeAll c' asked config shapes = writeAll c asked config shapes
  | [], _ => by rw [writeAll, writeAll]
  | s :: rest, hs => by
    rw [writeAll, writeAll, write_same h config s hs.1, writeAll_same h config rest hs.2]

theorem writeSome_same (h : c.Same c') (config : Config) : (shapes : List Shape) →
    AgreeAll Δ shapes → writeSome c' asked config shapes = writeSome c asked config shapes
  | [], _ => by rw [writeSome, writeSome]
  | s :: rest, hs => by
    rw [writeSome, writeSome, write_same h config s hs.1, writeSome_same h config rest hs.2]

theorem writeFields_same (h : c.Same c') (config : Config) : (fields : List (Field Shape)) →
    AgreeFields Δ fields → writeFields c' asked config fields = writeFields c asked config fields
  | [], _ => by rw [writeFields, writeFields]
  | ⟨_, s, _, _, _⟩ :: rest, hs => by
    rw [writeFields, writeFields, write_same h config s hs.1, writeFields_same h config rest hs.2]
    simp only [propertyEntries, withDefault_same h]
end

end Shape

/-! ## Types that name nothing -/

namespace Catalog
variable {a : TypeExpr}

theorem fragment_of_layOut {l : Layout} (hl : c.layOut a = .ok l) (side : Side) :
    c.fragment side a = (l.schema (c.heed a) side).mapError .obstacle := by
  rw [fragment, hl]
  rfl

theorem fragment_of_layOut_error {stop : Stop} (hl : c.layOut a = .error stop) (side : Side) :
    c.fragment side a = .error (.stop stop) := by
  rw [fragment, hl]
  rfl

theorem Same.schema_eq (h : c.Same c') {o : Shape} {Δ : Outlines} (ho : o.Agrees Δ) (side : Side) :
    Layout.schema c' side ⟨o, []⟩ = Layout.schema c side ⟨o, []⟩ := by
  have hwrite : Layout.write c' side ⟨o, []⟩ = Layout.write c side ⟨o, []⟩ := by
    rw [Layout.write, Layout.write, writeDefinitions, writeDefinitions, Shape.write_same h [] o ho]
  rw [Layout.schema, Layout.schema, hwrite]

theorem Same.fragment_eq (h : c.Same c') (ha : a.Within (fun _ => False) fun _ => False)
    (side : Side) : c'.fragment side a = c.fragment side a := by
  obtain ⟨hlayOut, hheed, -⟩ := layOut_eq_outline ha c
  obtain ⟨hlayOut', hheed', -⟩ := layOut_eq_outline ha c'
  have hsame : c'.layOut a = c.layOut a := hlayOut'.trans hlayOut.symm
  cases hl : c.layOut a with
  | error stop => rw [fragment_of_layOut_error hl, fragment_of_layOut_error (hsame.trans hl)]
  | ok l =>
    obtain ⟨o, -, hagrees, rfl, -⟩ := layOut_flat ha hl
    rw [fragment_of_layOut hl, fragment_of_layOut (hsame.trans hl), hheed, hheed',
      h.schema_eq hagrees]

end Catalog

/-! ## Texts -/

namespace Schema

/-- Whether a schema is a text without a type of its own, wrappers and marks apart. -/
def IsMereText (s : Schema) : Prop :=
  ∃ leaf o, s.base = text leaf o ∧ leaf.type = some .str

theorem within_leafType {leaf : Leaf} (h : leaf.type = some .str) (fallback : TypeExpr)
    {E P : String → Prop} : (leafType leaf fallback).Within E P := by
  have hmarks (marks : List Mark) : (TypeExpr.str.withMarks marks).Within E P := by
    rw [TypeExpr.str, TypeExpr.withMarks]
    · split
      · trivial
      · rw [TypeExpr.Within, TypeExpr.Within]
        trivial
    · intro base others h
      cases h
  rw [leafType, h, Option.getD_some]
  cases leaf.description with
  | none => exact hmarks _
  | some d =>
    rw [TypeExpr.described]
    split
    · exact hmarks _
    · exact hmarks _

theorem IsMereText.shown_eq (h : c.Same c') (side : Side) : (s : Schema) → s.IsMereText →
    shown c' side s = shown c side s
  | text leaf o, hs => by
    obtain ⟨leaf', o', hbase, htype⟩ := hs
    cases hbase
    have hshown (d : Catalog) : shown d side (text leaf o) =
        d.fragmentFor side (orIfEmpty none "string") (leafType leaf .str) := rfl
    rw [hshown, hshown, Catalog.fragmentFor, Catalog.fragmentFor,
      h.fragment_eq (within_leafType htype .str) side]
  | wrapped w (some s) o, hs => by
    have hinner : s.IsMereText := by
      obtain ⟨leaf, o', hbase, htype⟩ := hs
      exact ⟨leaf, o', by rw [← hbase, base], htype⟩
    rw [shown, shown, shown_eq h side s hinner]
    simp only [h.data_eq]
  | wrapped w none o, hs => by
    obtain ⟨leaf, o', hbase, -⟩ := hs
    rw [base] at hbase
    cases hbase
  | other _ _, hs | object _ _ _, hs => by
    obtain ⟨leaf, o', hbase, -⟩ := hs
    cases hbase

theorem IsMereText.render_eq {s : Schema} (hs : s.IsMereText) (h : c.Same c') (side : Side) :
    s.render c' side = s.render c side := by
  rw [render, render, shown_eq h side s hs]

/-! ## Texts that are read from types -/

variable {objectOf : String → Option Schema}

theorem isMereText_ofBase {type : TypeExpr} {marks : List Mark} {description : Option String}
    (h : (ofBase objectOf type marks description).base.kind = .string) :
    (ofBase objectOf type marks description).IsMereText := by
  obtain rfl := kind_base_ofBase h
  exact ⟨_, _, rfl, rfl⟩

theorem isMereText_wrap {w : Wrapper} {s : Schema} (h : s.IsMereText) :
    (wrap w s).IsMereText := by
  obtain ⟨leaf, o, hbase, htype⟩ := h
  exact ⟨leaf, o, by rw [base_wrap, hbase], htype⟩

theorem isMereText_ofMarked {type : TypeExpr} {marks : List Mark} {description : Option String}
    (h : (ofMarked objectOf type marks description).base.kind = .string) :
    (ofMarked objectOf type marks description).IsMereText := by
  simp only [ofMarked] at h ⊢
  split at h
  · next hempty =>
    rw [if_pos hempty]
    exact isMereText_ofBase h
  · next hempty =>
    rw [if_neg hempty]
    rw [checked, base_wrap] at h
    exact isMereText_wrap (isMereText_ofBase h)

theorem isMereText_readFrom {f : Field TypeExpr} {s : Schema} (h : s.IsMereText) :
    (s.readFrom f).IsMereText := by
  obtain ⟨leaf, o, hbase, htype⟩ := h
  cases s with
  | text leaf' o' =>
    cases hbase
    exact ⟨_, _, rfl, htype⟩
  | wrapped w inner o' =>
    cases inner with
    | none => cases hbase
    | some s => exact ⟨leaf, o, hbase, htype⟩
  | other | object => cases hbase

theorem isMereText_ofField {f : Field TypeExpr} (h : (ofField objectOf f).base.kind = .string) :
    (ofField objectOf f).IsMereText := by
  have htyped := isMereText_ofMarked (base_ofField objectOf f ▸ h)
  have hguarded : (guardedField objectOf f).IsMereText := by
    simp only [guardedField]
    split
    · exact htyped
    · exact isMereText_wrap htyped
  rw [ofField_eq]
  refine isMereText_readFrom ?_
  split
  · exact isMereText_wrap hguarded
  · split
    · exact hguarded
    · exact isMereText_wrap hguarded

/-- Whether the texts among the fields of an object are without types of their own. -/
def HasMereTexts (s : Schema) : Prop :=
  ∀ f ∈ s.fields, f.2.base.kind = .string → f.2.IsMereText

theorem inherits_hasMereTexts : Inherits HasMereTexts where
  text _ := nofun
  other _ := nofun
  described _ _ _ _ h := h
  checked _ _ _ := nofun

theorem hasMereTexts_ofRecord (objectOf : String → Option Schema) (r : Record TypeExpr) :
    (ofRecord objectOf r).HasMereTexts := by
  intro f hf
  rcases Entries.mem_of_mem_override hf with hf | hf
  · cases hf
  · obtain ⟨g, -, rfl⟩ := List.mem_map.mp hf
    exact isMereText_ofField

/-- After an input was taken for a schema, a text among its fields is rendered as before. -/
theorem render_heedSource {input : Source} {s : Schema} (hs : ofSource c "input" input = .ok s)
    {f : String × Schema} (hf : f ∈ s.fields) (hk : f.2.base.kind = .string) (side : Side) :
    f.2.render (c.heedSource input) side = f.2.render c side := by
  cases input with
  | schema | value => rfl
  | type a =>
    have htexts := inherits_hasMereTexts.ofSource
      (fun objectOf r _ => hasMereTexts_ofRecord objectOf r) (fun given hgiven => by cases hgiven) hs
    exact (htexts f hf hk).render_eq (.heedSource c _) side

end Schema
end Procedoc
